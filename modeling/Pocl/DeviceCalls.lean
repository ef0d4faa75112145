import Mathlib.Tactic
import Pocl.ExceptPrograms

/-!
# The table of devices

The first call that needs devices fills the table; which devices there are depends on the type
that this call asks for, if the library has been built for the HSA runtime.  A device is started
when a call hands it out, and the release of a started GPU device shuts the runtime down again.

What the functions of the HSA runtime answer comes from outside, and so do the allocations and the
check of the properties of a context.  The process exits if the runtime fails.  A device is
handed out as its index, and the devices that a client passes are in the table.
-/

namespace Pocl.DeviceCalls

open ExceptPrograms

inductive Driver
  | pthread
  | basic
  | hsa
  deriving DecidableEq

abbrev TypeBits := BitVec 64

def typeDefault : TypeBits := 1

def typeCpu : TypeBits := 2

def typeGpu : TypeBits := 4

structure Device where
  driver : Driver
  type : TypeBits
  available : Bool
  devId : ℕ
  isHsaInit : Bool
  /-- The agent of the runtime, or zero. -/
  agentId : ℕ
  references : ℤ
  deriving DecidableEq

structure World where
  devices : List Device
  /-- The calls of `hsa_init` that no call of `hsa_shut_down` has undone. -/
  hsaInits : ℕ
  hsaAgent : ℕ
  deriving DecidableEq

/-- Before the first call. -/
def World.initial : World := ⟨[], 0, 0⟩

inductive Failure
  | exit
  | abort
  | undefined
  deriving DecidableEq

inductive ClCode
  | success
  | invalidPlatform
  | invalidValue
  | deviceNotFound
  | outOfHostMemory
  | invalidProperty
  deriving DecidableEq

section Source

variable (hsaRuntime : Bool)

def poclDeviceTypes : List Device :=
  if hsaRuntime then
    [⟨.pthread, typeCpu, true, 0, false, 0, 0⟩, ⟨.basic, typeCpu, true, 0, false, 0, 0⟩,
      ⟨.hsa, typeGpu ||| typeDefault, true, 1, false, 0, 0⟩]
  else
    [⟨.pthread, typeCpu ||| typeDefault, true, 0, false, 0, 0⟩,
      ⟨.basic, typeCpu, true, 0, false, 0, 0⟩]

def deviceList (type : TypeBits) : List Driver :=
  if hsaRuntime then
    if type = typeGpu ∨ type = typeDefault then
      [.hsa]
    else if type = typeCpu then
      [.pthread]
    else
      [.pthread, .hsa]
  else
    [.pthread]

/-- The loop over the names in the list, with the number of devices so far. -/
def fillDevices : ℕ → List Driver → Except Failure (List Device)
  | _, [] => .ok []
  | devcount, token :: tokens =>
      match (poclDeviceTypes hsaRuntime).find? fun type => type.driver = token with
      | none => .error .abort
      | some type => do
          let rest ← fillDevices (devcount + 1) tokens
          .ok ({ type with devId := devcount } :: rest)

def poclInitDevices (type : TypeBits) (world : World) : Except Failure World :=
  if 0 < world.devices.length then
    .ok world
  else do
    let devices ← fillDevices hsaRuntime 0 (deviceList hsaRuntime type)
    .ok { world with devices }

/-- What the runtime answers when it is started, with the last GPU agent that it has. -/
structure HsaAnswer where
  init : Bool
  iterate : Bool
  agent : Option ℕ

/-- `hsa_init` and the search for an agent.  `hsaAgent` is a variable of the library. -/
def startRuntime (answer : HsaAnswer) (world : World) : Except Failure World :=
  let agent := answer.agent.getD world.hsaAgent
  if answer.init = true ∧ answer.iterate = true ∧ agent ≠ 0 then
    .ok { world with hsaInits := world.hsaInits + 1, hsaAgent := agent }
  else
    .error .exit

def startDevice (answer : HsaAnswer) (index : ℕ) (device : Device) (world : World) :
    Except Failure World := do
  let world ← startRuntime answer world
  .ok { world with
    devices := world.devices.set index
      { device with isHsaInit := true, agentId := world.hsaAgent } }

def ensureStarted (starts : Bool) (answer : HsaAnswer) (index : ℕ) (device : Device)
    (world : World) : Except Failure World :=
  if starts then startDevice answer index device world else .ok world

/-- `clGetDeviceIDs` looks at the type of the device. -/
def startsForIds (device : Device) : Bool :=
  hsaRuntime && device.type = typeGpu ||| typeDefault && !device.isHsaInit

/-- `clCreateContextFromType` looks at the type that is asked for. -/
def startsForContext (type : TypeBits) (device : Device) : Bool :=
  hsaRuntime && type &&& (typeGpu ||| typeDefault) ≠ 0 && !device.isHsaInit

def Device.Matches (device : Device) (type : TypeBits) : Prop :=
  device.type &&& type ≠ 0 ∧ device.available = true

instance (device : Device) (type : TypeBits) : Decidable (device.Matches type) :=
  inferInstanceAs (Decidable (_ ∧ _))

structure IdsRequest where
  platform : Bool
  deviceType : TypeBits
  numEntries : ℕ
  /-- Whether the pointers are given. -/
  devices : Bool
  numDevices : Bool

structure IdsState where
  world : World
  added : List ℕ
  total : ℕ

structure IdsResult where
  code : ClCode
  devices : List ℕ
  numDevices : Option ℕ
  deriving DecidableEq

/-- One round of the loop in `clGetDeviceIDs`. -/
def visitForIds (request : IdsRequest) (answers : ℕ → HsaAnswer) (state : IdsState) (i : ℕ) :
    Except Failure IdsState :=
  match state.world.devices[i]? with
  | none => .ok state
  | some device =>
      if device.Matches request.deviceType then
        if request.devices = true ∧ state.added.length < request.numEntries then
          (ensureStarted (startsForIds hsaRuntime device) (answers i) i device state.world).map
            fun world => ⟨world, state.added ++ [i], state.total + 1⟩
        else
          .ok { state with total := state.total + 1 }
      else
        .ok state

def clGetDeviceIDs (request : IdsRequest) (answers : ℕ → HsaAnswer) (world : World) :
    Except Failure (IdsResult × World) := do
  let world ← poclInitDevices hsaRuntime request.deviceType world
  if request.platform = false then
    .ok (⟨.invalidPlatform, [], none⟩, world)
  else if request.numEntries = 0 ∧ request.devices = true then
    .ok (⟨.invalidValue, [], none⟩, world)
  else if request.numDevices = false ∧ request.devices = false then
    .ok (⟨.invalidValue, [], none⟩, world)
  else do
    let state ← (List.range world.devices.length).foldlM
      (visitForIds hsaRuntime request answers) ⟨world, [], 0⟩
    let code := if 0 < state.added.length ∨ request.numEntries = 0 then ClCode.success
      else .deviceNotFound
    .ok (⟨code, state.added, if request.numDevices then some state.total else none⟩, state.world)

structure ContextRequest where
  deviceType : TypeBits
  mallocContext : Bool
  /-- The error of `context_set_properties`. -/
  propertiesError : Option ClCode
  mallocDevices : Bool

inductive ContextResult
  | failed (code : ClCode)
  /-- A context that is not valid, for a type that no device has. -/
  | dummy
  | created (devices : List ℕ)
  deriving DecidableEq

structure ContextState where
  world : World
  devices : List ℕ

def clRetainDevice (index : ℕ) (world : World) : World :=
  match world.devices[index]? with
  | none => world
  | some device =>
      { world with
        devices := world.devices.set index { device with references := device.references + 1 } }

/-- One round of the second loop in `clCreateContextFromType`.  The agent is stored through the
entry of the context with the index of the table, which has not been written if an earlier device
has been left out. -/
def visitForContext (request : ContextRequest) (answers : ℕ → HsaAnswer) (state : ContextState)
    (i : ℕ) : Except Failure ContextState :=
  match state.world.devices[i]? with
  | none => .ok state
  | some device =>
      let starts := startsForContext hsaRuntime request.deviceType device
      if device.Matches request.deviceType then do
        let world ← ensureStarted starts (answers i) i device state.world
        if starts = true ∧ i ≠ state.devices.length then
          .error .undefined
        else
          .ok ⟨clRetainDevice i world, state.devices ++ [i]⟩
      else
        .ok state

def countDevices (type : TypeBits) (world : World) : ℕ :=
  world.devices.countP fun device => device.Matches type

def clCreateContextFromType (request : ContextRequest) (answers : ℕ → HsaAnswer)
    (world : World) : Except Failure (ContextResult × World) := do
  let world ← poclInitDevices hsaRuntime request.deviceType world
  if request.mallocContext = false then
    .ok (.failed .outOfHostMemory, world)
  else
    match request.propertiesError with
    | some code => .ok (.failed code, world)
    | none =>
        if countDevices request.deviceType world = 0 then
          .ok (.dummy, world)
        else if request.mallocDevices = false then
          .ok (.failed .outOfHostMemory, world)
        else do
          let state ← (List.range world.devices.length).foldlM
            (visitForContext hsaRuntime request answers) ⟨world, []⟩
          .ok (.created state.devices, state.world)

/-- `shutDown` says whether `hsa_shut_down` succeeds. -/
def clReleaseDevice (index : ℕ) (shutDown : Bool) (world : World) : Except Failure World :=
  match world.devices[index]? with
  | none => .ok world
  | some device =>
      if hsaRuntime = true ∧ device.type &&& typeGpu ≠ 0 ∧ device.isHsaInit = true then
        if shutDown then
          .ok { world with
            devices := world.devices.set index
              { device with references := device.references - 1, isHsaInit := false }
            hsaInits := world.hsaInits - 1 }
        else
          .error .exit
      else
        .ok { world with
          devices := world.devices.set index { device with references := device.references - 1 } }

inductive Call
  | getDeviceIDs (request : IdsRequest) (answers : ℕ → HsaAnswer)
  | createContextFromType (request : ContextRequest) (answers : ℕ → HsaAnswer)
  | retainDevice (index : ℕ)
  | releaseDevice (index : ℕ) (shutDown : Bool)

def step (world : World) : Call → Except Failure World
  | .getDeviceIDs request answers => (clGetDeviceIDs hsaRuntime request answers world).map Prod.snd
  | .createContextFromType request answers =>
      (clCreateContextFromType hsaRuntime request answers world).map Prod.snd
  | .retainDevice index => .ok (clRetainDevice index world)
  | .releaseDevice index shutDown => clReleaseDevice hsaRuntime index shutDown world

def run (calls : List Call) (world : World) : Except Failure World :=
  calls.foldlM (step hsaRuntime) world

end Source

section Table

variable {hsaRuntime : Bool}

/-- The device as it was put into the table. -/
def Device.fresh (device : Device) : Device :=
  { device with isHsaInit := false, agentId := 0, references := 0 }

/-- The table that a type leads to. -/
def deviceTable (hsaRuntime : Bool) (type : TypeBits) : List Device :=
  match fillDevices hsaRuntime 0 (deviceList hsaRuntime type) with
  | .ok devices => devices
  | .error _ => []

/-- All names are those of devices, which are numbered from zero. -/
theorem fillDevices_deviceList (hsaRuntime : Bool) (type : TypeBits) :
    fillDevices hsaRuntime 0 (deviceList hsaRuntime type) =
        .ok (deviceTable hsaRuntime type) ∧
      deviceTable hsaRuntime type ≠ [] ∧
      (deviceTable hsaRuntime type).map Device.fresh = deviceTable hsaRuntime type ∧
      (deviceTable hsaRuntime type).map Device.devId =
        List.range (deviceTable hsaRuntime type).length := by
  cases hsaRuntime with
  | false =>
      unfold deviceTable deviceList
      simp only [Bool.false_eq_true, if_false]
      decide
  | true =>
      unfold deviceTable deviceList
      simp only [if_true]
      split
      · decide
      · split
        · decide
        · decide

/-- What holds between the calls. -/
structure Invariant (hsaRuntime : Bool) (table : List Device) (world : World) : Prop where
  devices : world.devices.map Device.fresh = table
  inits : world.hsaInits = world.devices.countP fun device => device.isHsaInit
  agents : ∀ device ∈ world.devices, device.isHsaInit = true → device.agentId ≠ 0
  plain : hsaRuntime = false → ∀ device ∈ world.devices, device.isHsaInit = false

variable {table : List Device} {world : World}

theorem Invariant.length (hinv : Invariant hsaRuntime table world) :
    world.devices.length = table.length := by
  rw [← hinv.devices, List.length_map]

theorem Invariant.getElem? (hinv : Invariant hsaRuntime table world) {i : ℕ} {device : Device}
    (hdevice : world.devices[i]? = some device) : table[i]? = some device.fresh := by
  rw [← hinv.devices, List.getElem?_map, hdevice]
  rfl

theorem fresh_set {i : ℕ} {device after : Device} (hdevice : world.devices[i]? = some device)
    (hfresh : after.fresh = device.fresh) :
    (world.devices.set i after).map Device.fresh = world.devices.map Device.fresh := by
  obtain ⟨hlt, hget⟩ := List.getElem?_eq_some_iff.mp hdevice
  have hself : world.devices.set i device = world.devices := by
    rw [← hget]
    exact List.set_getElem_self hlt
  rw [List.map_set, hfresh, ← List.map_set, hself]

/-- An entry is replaced by one for the same device. -/
theorem Invariant.set (hinv : Invariant hsaRuntime table world) {i : ℕ} {device : Device}
    (after : Device) (hdevice : world.devices[i]? = some device)
    (hfresh : after.fresh = device.fresh)
    {inits agent : ℕ}
    (hinits : inits + (if device.isHsaInit then 1 else 0) =
      world.hsaInits + if after.isHsaInit then 1 else 0)
    (hagent : after.isHsaInit = true → after.agentId ≠ 0)
    (hplain : hsaRuntime = false → after.isHsaInit = false) :
    Invariant hsaRuntime table ⟨world.devices.set i after, inits, agent⟩ where
  devices := (fresh_set hdevice hfresh).trans hinv.devices
  inits := by
    obtain ⟨hlt, hget⟩ := List.getElem?_eq_some_iff.mp hdevice
    have hcount : (if device.isHsaInit then 1 else 0) ≤
        world.devices.countP fun device => device.isHsaInit := by
      split
      · rename_i hmarked
        exact List.countP_pos_iff.mpr ⟨device, List.mem_of_getElem? hdevice, hmarked⟩
      · exact Nat.zero_le _
    rw [hinv.inits] at hinits
    rw [List.countP_set hlt, hget]
    dsimp only
    omega
  agents := by
    intro other hother hmarked
    rcases List.mem_or_eq_of_mem_set hother with hold | rfl
    · exact hinv.agents other hold hmarked
    · exact hagent hmarked
  plain := by
    intro hbuild other hother
    rcases List.mem_or_eq_of_mem_set hother with hold | rfl
    · exact hinv.plain hbuild other hold
    · exact hplain hbuild

theorem clRetainDevice_invariant (hinv : Invariant hsaRuntime table world) (index : ℕ) :
    Invariant hsaRuntime table (clRetainDevice index world) := by
  unfold clRetainDevice
  cases hdevice : world.devices[index]? with
  | none => exact hinv
  | some device =>
      have hmem := List.mem_of_getElem? hdevice
      apply hinv.set _ hdevice
      · rfl
      · rfl
      · exact hinv.agents device hmem
      · exact fun hbuild => hinv.plain hbuild device hmem

theorem clReleaseDevice_invariant (hinv : Invariant hsaRuntime table world) {index : ℕ}
    {shutDown : Bool} {after : World}
    (hrelease : clReleaseDevice hsaRuntime index shutDown world = .ok after) :
    Invariant hsaRuntime table after := by
  unfold clReleaseDevice at hrelease
  cases hdevice : world.devices[index]? with
  | none =>
      rw [hdevice] at hrelease
      cases hrelease
      exact hinv
  | some device =>
      have hmem := List.mem_of_getElem? hdevice
      rw [hdevice] at hrelease
      dsimp only at hrelease
      split at hrelease
      · rename_i hstarted
        split at hrelease
        · cases hrelease
          have hpositive : 0 < world.hsaInits := by
            rw [hinv.inits]
            exact List.countP_pos_iff.mpr ⟨device, hmem, hstarted.2.2⟩
          apply hinv.set _ hdevice
          · rfl
          · simp only [hstarted.2.2, if_true, Bool.false_eq_true, if_false]
            omega
          · intro hmarked
            cases hmarked
          · exact fun _ => rfl
        · cases hrelease
      · cases hrelease
        apply hinv.set _ hdevice
        · rfl
        · rfl
        · exact hinv.agents device hmem
        · exact fun hbuild => hinv.plain hbuild device hmem

/-- A device that has not been started is started once. -/
theorem startDevice_invariant (hinv : Invariant hsaRuntime table world) {answer : HsaAnswer}
    {i : ℕ} {device : Device} {after : World} (hdevice : world.devices[i]? = some device)
    (hbuild : hsaRuntime = true) (hidle : device.isHsaInit = false)
    (hstart : startDevice answer i device world = .ok after) :
    Invariant hsaRuntime table after := by
  unfold startDevice at hstart
  rw [bind_eq_ok] at hstart
  obtain ⟨started, hruntime, hafter⟩ := hstart
  unfold startRuntime at hruntime
  dsimp only at hruntime
  split at hruntime
  · rename_i hanswer
    cases hruntime
    cases hafter
    apply hinv.set _ hdevice
    · rfl
    · simp only [hidle, Bool.false_eq_true, if_false, if_true]
    · exact fun _ => hanswer.2.2
    · intro hplain
      rw [hbuild] at hplain
      cases hplain
  · cases hruntime

/-- No call has needed the devices yet, or the table has been filled. -/
def Known (hsaRuntime : Bool) (table : List Device) (world : World) : Prop :=
  world.devices = [] ∧ table = [] ∧ world.hsaInits = 0 ∨
    table ≠ [] ∧ Invariant hsaRuntime table world

/-- The table once a call has needed the devices. -/
def filledTable (hsaRuntime : Bool) (table : List Device) (type : TypeBits) : List Device :=
  if table = [] then deviceTable hsaRuntime type else table

def World.filled (hsaRuntime : Bool) (type : TypeBits) (world : World) : World :=
  { world with devices := filledTable hsaRuntime world.devices type }

theorem poclInitDevices_eq (hsaRuntime : Bool) (type : TypeBits) (world : World) :
    poclInitDevices hsaRuntime type world = .ok (world.filled hsaRuntime type) := by
  unfold poclInitDevices World.filled filledTable
  by_cases hempty : world.devices = []
  · rw [if_neg (by simp [hempty]), if_pos hempty, (fillDevices_deviceList hsaRuntime type).1]
    rfl
  · rw [if_pos (List.length_pos_iff.mpr hempty), if_neg hempty]

theorem filledTable_ne (hsaRuntime : Bool) (table : List Device) (type : TypeBits) :
    filledTable hsaRuntime table type ≠ [] := by
  unfold filledTable
  split
  · exact (fillDevices_deviceList hsaRuntime type).2.1
  · rename_i hne
    exact hne

/-- The table is filled once. -/
theorem Known.filled (hinv : Known hsaRuntime table world) (type : TypeBits) :
    Invariant hsaRuntime (filledTable hsaRuntime table type) (world.filled hsaRuntime type) := by
  obtain ⟨-, -, hfresh, -⟩ := fillDevices_deviceList hsaRuntime type
  obtain ⟨hdevices, rfl, hinits⟩ | ⟨hne, hinv⟩ := hinv
  · unfold World.filled filledTable
    rw [if_pos hdevices, if_pos rfl]
    have hidle : ∀ device ∈ deviceTable hsaRuntime type, device.isHsaInit = false := by
      intro device hmem
      rw [← hfresh] at hmem
      obtain ⟨before, -, rfl⟩ := List.mem_map.mp hmem
      rfl
    constructor
    · exact hfresh
    · have hcount : (deviceTable hsaRuntime type).countP (fun device => device.isHsaInit) = 0 :=
        List.countP_eq_zero.mpr fun device hmem => by simp [hidle device hmem]
      exact hinits.trans hcount.symm
    · intro device hmem hmarked
      rw [hidle device hmem] at hmarked
      cases hmarked
    · exact fun _ => hidle
  · have hfilled : world.devices ≠ [] := by
      intro hempty
      have hlength := hinv.length
      rw [hempty] at hlength
      exact hne (List.length_eq_zero_iff.mp hlength.symm)
    unfold World.filled filledTable
    rw [if_neg hfilled, if_neg hne]
    exact hinv

end Table

section Loops

variable {hsaRuntime : Bool} {table : List Device}

/-- The devices of the type, in the order of the table. -/
def matchingIds (devices : List Device) (type : TypeBits) (indices : List ℕ) : List ℕ :=
  indices.filter fun i => devices[i]?.any fun device => device.Matches type

theorem matchingIds_append (devices : List Device) (type : TypeBits) (first second : List ℕ) :
    matchingIds devices type (first ++ second) =
      matchingIds devices type first ++ matchingIds devices type second :=
  List.filter_append ..

theorem matchingIds_singleton {devices : List Device} {i : ℕ} {device : Device}
    (hdevice : devices[i]? = some device) (type : TypeBits) :
    matchingIds devices type [i] = if device.Matches type then [i] else [] := by
  unfold matchingIds
  by_cases hmatches : device.Matches type <;> simp [hdevice, hmatches]

theorem matchingIds_none {devices : List Device} {type : TypeBits} {i : ℕ}
    (hdevice : devices[i]? = none) : matchingIds devices type [i] = [] := by
  simp [matchingIds, hdevice]

theorem ensureStarted_devices {starts : Bool} {answer : HsaAnswer} {i : ℕ} {device : Device}
    {world after : World} (hstart : ensureStarted starts answer i device world = .ok after) :
    starts = false ∧ after = world ∨ starts = true ∧ ∃ agent, after.devices =
      world.devices.set i { device with isHsaInit := true, agentId := agent } := by
  unfold ensureStarted at hstart
  cases starts with
  | false =>
      cases hstart
      exact Or.inl ⟨rfl, rfl⟩
  | true =>
      rw [if_pos rfl, startDevice, bind_eq_ok] at hstart
      obtain ⟨started, hruntime, hafter⟩ := hstart
      unfold startRuntime at hruntime
      dsimp only at hruntime
      split at hruntime
      · cases hruntime
        cases hafter
        exact Or.inr ⟨rfl, _, rfl⟩
      · cases hruntime

theorem ensureStarted_invariant {world after : World} (hinv : Invariant hsaRuntime table world)
    {starts : Bool} {answer : HsaAnswer} {i : ℕ} {device : Device}
    (hdevice : world.devices[i]? = some device)
    (hstarts : starts = true → hsaRuntime = true ∧ device.isHsaInit = false)
    (hstart : ensureStarted starts answer i device world = .ok after) :
    Invariant hsaRuntime table after := by
  unfold ensureStarted at hstart
  split at hstart
  · rename_i hneeded
    exact startDevice_invariant hinv hdevice (hstarts hneeded).1 (hstarts hneeded).2 hstart
  · cases hstart
    exact hinv

/-- The answer of `clGetDeviceIDs` for a table. -/
def idsResult (table : List Device) (request : IdsRequest) : IdsResult :=
  let matching := matchingIds table request.deviceType (List.range table.length)
  let devices := if request.devices then matching.take request.numEntries else []
  if request.platform = false then
    ⟨.invalidPlatform, [], none⟩
  else if (request.numEntries = 0 ∧ request.devices = true) ∨
      (request.numDevices = false ∧ request.devices = false) then
    ⟨.invalidValue, [], none⟩
  else
    ⟨if 0 < devices.length ∨ request.numEntries = 0 then .success else .deviceNotFound, devices,
      if request.numDevices then some matching.length else none⟩

/-- The devices of the runtime that are handed out have been started. -/
def GpusStarted (hsaRuntime : Bool) (world : World) (indices : List ℕ) : Prop :=
  hsaRuntime = true → ∀ i ∈ indices, ∀ device, world.devices[i]? = some device →
    device.type = typeGpu ||| typeDefault → device.isHsaInit = true

theorem gpusStarted_nil (hsaRuntime : Bool) (world : World) : GpusStarted hsaRuntime world [] :=
  fun _ _ hi => absurd hi List.not_mem_nil

/-- What `clGetDeviceIDs` has done for the first devices of the table. -/
structure IdsInvariant (hsaRuntime : Bool) (table : List Device) (request : IdsRequest)
    (seen : List ℕ) (state : IdsState) : Prop where
  world : Invariant hsaRuntime table state.world
  total : state.total = (matchingIds table request.deviceType seen).length
  added : state.added =
    if request.devices then (matchingIds table request.deviceType seen).take request.numEntries
    else []
  started : GpusStarted hsaRuntime state.world state.added

theorem IdsInvariant.skip {request : IdsRequest} {seen : List ℕ} {state : IdsState} {i : ℕ}
    (hinv : IdsInvariant hsaRuntime table request seen state)
    (hskip : matchingIds table request.deviceType [i] = []) :
    IdsInvariant hsaRuntime table request (seen ++ [i]) state where
  world := hinv.world
  total := by rw [matchingIds_append, hskip, List.append_nil, hinv.total]
  added := by rw [matchingIds_append, hskip, List.append_nil, hinv.added]
  started := hinv.started

/-- A device that is counted and not handed out. -/
theorem IdsInvariant.count {request : IdsRequest} {seen : List ℕ} {state : IdsState} {i : ℕ}
    (hinv : IdsInvariant hsaRuntime table request seen state)
    (hfull : ¬(request.devices = true ∧ state.added.length < request.numEntries))
    (hsingle : matchingIds table request.deviceType [i] = [i]) :
    IdsInvariant hsaRuntime table request (seen ++ [i])
      { state with total := state.total + 1 } where
  world := hinv.world
  total := by
    rw [matchingIds_append, hsingle, List.length_append, hinv.total]
    rfl
  added := by
    have hadded := hinv.added
    rw [matchingIds_append, hsingle]
    cases hpointer : request.devices with
    | false => simpa [hpointer] using hadded
    | true =>
        rw [if_pos hpointer] at hadded
        have hlong : request.numEntries ≤ (matchingIds table request.deviceType seen).length := by
          have hlength := congrArg List.length hadded
          rw [List.length_take] at hlength
          have hnot : ¬state.added.length < request.numEntries := fun hlt => hfull ⟨hpointer, hlt⟩
          omega
        rw [if_pos rfl, List.take_append_of_le_length hlong]
        exact hadded
  started := hinv.started

/-- A device that is handed out. -/
theorem IdsInvariant.add {request : IdsRequest} {seen : List ℕ} {state : IdsState} {i : ℕ}
    (hinv : IdsInvariant hsaRuntime table request seen state) {device : Device}
    (hdevice : state.world.devices[i]? = some device)
    (hroom : request.devices = true ∧ state.added.length < request.numEntries)
    (hsingle : matchingIds table request.deviceType [i] = [i]) {answer : HsaAnswer}
    {world : World}
    (hstart : ensureStarted (startsForIds hsaRuntime device) answer i device state.world =
      .ok world) :
    IdsInvariant hsaRuntime table request (seen ++ [i])
      ⟨world, state.added ++ [i], state.total + 1⟩ where
  world := by
    apply ensureStarted_invariant hinv.world hdevice _ hstart
    intro hstarts
    simp only [startsForIds, Bool.and_eq_true, Bool.not_eq_true'] at hstarts
    exact ⟨hstarts.1.1, hstarts.2⟩
  total := by
    rw [matchingIds_append, hsingle, List.length_append, hinv.total]
    rfl
  added := by
    have hadded := hinv.added
    rw [if_pos hroom.1] at hadded
    have hlength := congrArg List.length hadded
    rw [List.length_take] at hlength
    have hshort : (matchingIds table request.deviceType seen).length < request.numEntries := by
      omega
    rw [List.take_of_length_le hshort.le] at hadded
    rw [if_pos hroom.1, matchingIds_append, hsingle, hadded, List.take_of_length_le]
    rw [List.length_append, List.length_singleton]
    exact hshort
  started := by
    intro hbuild j hj other hother htype
    obtain ⟨hidle, rfl⟩ | ⟨-, agent, hdevices⟩ := ensureStarted_devices hstart
    · rcases List.mem_append.mp hj with hj | hj
      · exact hinv.started hbuild j hj other hother htype
      · rw [List.mem_singleton.mp hj, hdevice] at hother
        obtain rfl := Option.some.inj hother
        simpa [startsForIds, hbuild, htype] using hidle
    · rw [hdevices, List.getElem?_set] at hother
      split at hother
      · split at hother
        · rw [← Option.some.inj hother]
        · cases hother
      · rename_i hne
        rcases List.mem_append.mp hj with hj | hj
        · exact hinv.started hbuild j hj other hother htype
        · exact absurd (List.mem_singleton.mp hj).symm hne

theorem visitForIds_invariant {request : IdsRequest} {answers : ℕ → HsaAnswer} {seen : List ℕ}
    {state after : IdsState} {i : ℕ}
    (hinv : IdsInvariant hsaRuntime table request seen state)
    (hvisit : visitForIds hsaRuntime request answers state i = .ok after) :
    IdsInvariant hsaRuntime table request (seen ++ [i]) after := by
  unfold visitForIds at hvisit
  cases hdevice : state.world.devices[i]? with
  | none =>
      rw [hdevice] at hvisit
      cases hvisit
      apply hinv.skip
      apply matchingIds_none
      rw [← hinv.world.devices, List.getElem?_map, hdevice]
      rfl
  | some device =>
      have hsingle : matchingIds table request.deviceType [i] =
          if device.Matches request.deviceType then [i] else [] :=
        (matchingIds_singleton (hinv.world.getElem? hdevice) request.deviceType).trans rfl
      rw [hdevice] at hvisit
      dsimp only at hvisit
      split at hvisit
      · rename_i hmatches
        rw [if_pos hmatches] at hsingle
        split at hvisit
        · rename_i hroom
          obtain ⟨world, hstart, rfl⟩ := map_eq_ok.mp hvisit
          exact hinv.add hdevice hroom hsingle hstart
        · rename_i hfull
          cases hvisit
          exact hinv.count hfull hsingle
      · rename_i hmatches
        cases hvisit
        rw [if_neg hmatches] at hsingle
        exact hinv.skip hsingle

theorem clGetDeviceIDs_invariant {request : IdsRequest} {answers : ℕ → HsaAnswer}
    {world world' : World} {result : IdsResult}
    (hinv : Known hsaRuntime table world)
    (hcall : clGetDeviceIDs hsaRuntime request answers world = .ok (result, world')) :
    let table := filledTable hsaRuntime table request.deviceType
    Invariant hsaRuntime table world' ∧ result = idsResult table request ∧
      GpusStarted hsaRuntime world' result.devices := by
  intro table'
  have hstart := hinv.filled request.deviceType
  generalize hfill : world.filled hsaRuntime request.deviceType = filled at hstart
  unfold clGetDeviceIDs at hcall
  rw [poclInitDevices_eq, hfill, bind_eq_ok] at hcall
  obtain ⟨_, hfilled, hcall⟩ := hcall
  cases hfilled
  unfold idsResult
  split at hcall
  · rename_i hplatform
    cases hcall
    rw [if_pos hplatform]
    exact ⟨hstart, rfl, gpusStarted_nil _ _⟩
  · rename_i hplatform
    rw [if_neg hplatform]
    split at hcall
    · rename_i hentries
      cases hcall
      rw [if_pos (Or.inl hentries)]
      exact ⟨hstart, rfl, gpusStarted_nil _ _⟩
    · rename_i hentries
      split at hcall
      · rename_i hpointers
        cases hcall
        rw [if_pos (Or.inr hpointers)]
        exact ⟨hstart, rfl, gpusStarted_nil _ _⟩
      · rename_i hpointers
        rw [if_neg (not_or.mpr ⟨hentries, hpointers⟩)]
        rw [bind_eq_ok] at hcall
        obtain ⟨state, hloop, hresult⟩ := hcall
        have hinv : IdsInvariant hsaRuntime table' request [] ⟨filled, [], 0⟩ :=
          ⟨hstart, rfl, by simp [matchingIds], gpusStarted_nil _ _⟩
        have hdone := foldlM_split (fun _ _ _ _ _ _ => visitForIds_invariant) hinv hloop
        rw [hstart.length] at hdone
        cases hresult
        refine ⟨hdone.world, ?_, hdone.started⟩
        rw [← hdone.added, ← hdone.total]

/-- What `clCreateContextFromType` has done for the first devices of the table. -/
structure ContextInvariant (hsaRuntime : Bool) (table : List Device) (request : ContextRequest)
    (seen : List ℕ) (state : ContextState) : Prop where
  world : Invariant hsaRuntime table state.world
  devices : state.devices = matchingIds table request.deviceType seen

theorem visitForContext_invariant {request : ContextRequest} {answers : ℕ → HsaAnswer}
    {seen : List ℕ} {state after : ContextState} {i : ℕ}
    (hinv : ContextInvariant hsaRuntime table request seen state)
    (hvisit : visitForContext hsaRuntime request answers state i = .ok after) :
    ContextInvariant hsaRuntime table request (seen ++ [i]) after := by
  unfold visitForContext at hvisit
  cases hdevice : state.world.devices[i]? with
  | none =>
      rw [hdevice] at hvisit
      cases hvisit
      have hskip : matchingIds table request.deviceType [i] = [] := by
        apply matchingIds_none
        rw [← hinv.world.devices, List.getElem?_map, hdevice]
        rfl
      refine ⟨hinv.world, ?_⟩
      rw [matchingIds_append, hskip, List.append_nil, hinv.devices]
  | some device =>
      have hsingle : matchingIds table request.deviceType [i] =
          if device.Matches request.deviceType then [i] else [] :=
        (matchingIds_singleton (hinv.world.getElem? hdevice) request.deviceType).trans rfl
      rw [hdevice] at hvisit
      dsimp only at hvisit
      split at hvisit
      · rename_i hmatches
        rw [if_pos hmatches] at hsingle
        rw [bind_eq_ok] at hvisit
        obtain ⟨world, hstart, hafter⟩ := hvisit
        split at hafter
        · cases hafter
        · cases hafter
          constructor
          · apply clRetainDevice_invariant
            apply ensureStarted_invariant hinv.world hdevice _ hstart
            intro hstarts
            simp only [startsForContext, Bool.and_eq_true, Bool.not_eq_true'] at hstarts
            exact ⟨hstarts.1.1, hstarts.2⟩
          · rw [matchingIds_append, hsingle, hinv.devices]
      · rename_i hmatches
        cases hvisit
        rw [if_neg hmatches] at hsingle
        refine ⟨hinv.world, ?_⟩
        rw [matchingIds_append, hsingle, List.append_nil, hinv.devices]

theorem clCreateContextFromType_invariant {request : ContextRequest} {answers : ℕ → HsaAnswer}
    {world world' : World} {result : ContextResult}
    (hinv : Known hsaRuntime table world)
    (hcall : clCreateContextFromType hsaRuntime request answers world = .ok (result, world')) :
    let table := filledTable hsaRuntime table request.deviceType
    Invariant hsaRuntime table world' ∧
      ∀ devices, result = .created devices →
        devices = matchingIds table request.deviceType (List.range table.length) := by
  intro table'
  have hstart := hinv.filled request.deviceType
  generalize hfill : world.filled hsaRuntime request.deviceType = filled at hstart
  unfold clCreateContextFromType at hcall
  rw [poclInitDevices_eq, hfill, bind_eq_ok] at hcall
  obtain ⟨_, hfilled, hcall⟩ := hcall
  cases hfilled
  have hfailed : ∀ {other : ContextResult}, (∀ devices, other ≠ .created devices) →
      (.ok (other, filled) : Except Failure (ContextResult × World)) = .ok (result, world') →
      Invariant hsaRuntime table' world' ∧ ∀ devices, result = .created devices →
        devices = matchingIds table' request.deviceType (List.range table'.length) := by
    intro other hother heq
    cases heq
    exact ⟨hstart, fun devices hcreated => absurd hcreated (hother devices)⟩
  split at hcall
  · exact hfailed (by simp) hcall
  · split at hcall
    · exact hfailed (by simp) hcall
    · split at hcall
      · exact hfailed (by simp) hcall
      · split at hcall
        · exact hfailed (by simp) hcall
        · rw [bind_eq_ok] at hcall
          obtain ⟨state, hloop, hresult⟩ := hcall
          have hfirst : ContextInvariant hsaRuntime table' request [] ⟨filled, []⟩ :=
            ⟨hstart, by simp [matchingIds]⟩
          have hdone := foldlM_split (fun _ _ _ _ _ _ => visitForContext_invariant) hfirst hloop
          rw [hstart.length] at hdone
          cases hresult
          refine ⟨hdone.world, ?_⟩
          intro devices hcreated
          cases hcreated
          exact hdone.devices

end Loops

section Undefined

variable {hsaRuntime : Bool}

/-- The runtime starts and has a GPU agent. -/
def HsaAnswer.Succeeds (answer : HsaAnswer) : Prop :=
  answer.init = true ∧ answer.iterate = true ∧ ∃ agent ≠ 0, answer.agent = some agent

/-- A device that is to be started follows one that is left out. -/
def StartsBehindGap (hsaRuntime : Bool) (type : TypeBits) (devices : List Device) (i : ℕ) :
    Prop :=
  ∃ device, devices[i]? = some device ∧ device.Matches type ∧
    startsForContext hsaRuntime type device = true ∧
    ∃ j < i, (matchingIds devices type [j]) = []

theorem ensureStarted_succeeds {answer : HsaAnswer} (hanswer : answer.Succeeds) (starts : Bool)
    (i : ℕ) (device : Device) (world : World) :
    ∃ after, ensureStarted starts answer i device world = .ok after ∧
      ∀ j, i < j → after.devices[j]? = world.devices[j]? := by
  obtain ⟨hinit, hiterate, agent, hne, hagent⟩ := hanswer
  cases starts with
  | false => exact ⟨world, rfl, fun _ _ => rfl⟩
  | true =>
      have hruntime : startRuntime answer world =
          .ok { world with hsaInits := world.hsaInits + 1, hsaAgent := agent } := by
        unfold startRuntime
        simp [hinit, hiterate, hagent, hne]
      have hstart : ensureStarted true answer i device world = .ok
          ⟨world.devices.set i { device with isHsaInit := true, agentId := agent },
            world.hsaInits + 1, agent⟩ := by
        rw [ensureStarted, if_pos rfl, startDevice, hruntime]
        rfl
      exact ⟨_, hstart, fun j hj => List.getElem?_set_ne hj.ne⟩

theorem matchingIds_range_length (devices : List Device) (type : TypeBits) (i : ℕ) :
    (matchingIds devices type (List.range i)).length = i ↔
      ∀ j < i, matchingIds devices type [j] ≠ [] := by
  have hlength := List.length_filter_eq_length_iff (l := List.range i)
    (p := fun j => devices[j]?.any fun device => device.Matches type)
  rw [List.length_range] at hlength
  unfold matchingIds
  rw [hlength]
  simp [List.filter_cons]

/-- The next device is visited. -/
theorem visitForContext_next {request : ContextRequest} {answers : ℕ → HsaAnswer}
    (hanswers : ∀ i, (answers i).Succeeds) {devices : List Device} {first : ℕ}
    {state : ContextState}
    (hfilled : state.devices = matchingIds devices request.deviceType (List.range first))
    (hrest : ∀ i, first ≤ i → state.world.devices[i]? = devices[i]?) :
    StartsBehindGap hsaRuntime request.deviceType devices first ∧
        visitForContext hsaRuntime request answers state first = .error .undefined ∨
      ¬StartsBehindGap hsaRuntime request.deviceType devices first ∧
        ∃ after, visitForContext hsaRuntime request answers state first = .ok after ∧
          after.devices = matchingIds devices request.deviceType (List.range (first + 1)) ∧
          ∀ i, first + 1 ≤ i → after.world.devices[i]? = devices[i]? := by
  have hlater : ∀ i, first + 1 ≤ i → state.world.devices[i]? = devices[i]? :=
    fun i hi => hrest i (Nat.le_of_succ_le hi)
  have hrange : matchingIds devices request.deviceType (List.range (first + 1)) =
      state.devices ++ matchingIds devices request.deviceType [first] := by
    rw [List.range_succ, matchingIds_append, hfilled]
  unfold visitForContext
  rw [hrest first le_rfl, hrange]
  cases hdevice : devices[first]? with
  | none =>
      right
      constructor
      · rintro ⟨device, hsome, -⟩
        rw [hdevice] at hsome
        cases hsome
      · refine ⟨state, rfl, ?_, hlater⟩
        rw [matchingIds_none hdevice, List.append_nil]
  | some device =>
      rw [matchingIds_singleton hdevice]
      dsimp only
      by_cases hmatches : device.Matches request.deviceType
      · rw [if_pos hmatches, if_pos hmatches]
        obtain ⟨world, hstart, hworld⟩ := ensureStarted_succeeds (hanswers first)
          (startsForContext hsaRuntime request.deviceType device) first device state.world
        have hcount := matchingIds_range_length devices request.deviceType first
        rw [← hfilled] at hcount
        rw [hstart]
        dsimp only [bind, Except.bind]
        split
        · rename_i hgap
          left
          refine ⟨⟨device, hdevice, hmatches, hgap.1, ?_⟩, rfl⟩
          by_contra hnone
          apply hgap.2
          apply Eq.symm
          rw [hcount]
          intro j hj hleft
          exact hnone ⟨j, hj, hleft⟩
        · rename_i hgap
          right
          constructor
          · rintro ⟨other, hother, -, hstarts, j, hj, hleft⟩
            obtain rfl := Option.some.inj (hdevice.symm.trans hother)
            apply hgap
            refine ⟨hstarts, fun heq => ?_⟩
            exact hcount.mp heq.symm j hj hleft
          · refine ⟨_, rfl, rfl, ?_⟩
            intro i hi
            rw [← hlater i hi, ← hworld i hi]
            unfold clRetainDevice
            split
            · rfl
            · exact List.getElem?_set_ne (Nat.ne_of_lt hi)
      · rw [if_neg hmatches, if_neg hmatches]
        right
        constructor
        · rintro ⟨other, hother, hother_matches, -⟩
          obtain rfl := Option.some.inj (hdevice.symm.trans hother)
          exact hmatches hother_matches
        · exact ⟨state, rfl, (List.append_nil _).symm, hlater⟩

theorem foldlM_visitForContext_undefined (hsaRuntime : Bool) (request : ContextRequest)
    {answers : ℕ → HsaAnswer} (hanswers : ∀ i, (answers i).Succeeds) (devices : List Device)
    (count first : ℕ) (state : ContextState)
    (hfilled : state.devices = matchingIds devices request.deviceType (List.range first))
    (hrest : ∀ i, first ≤ i → state.world.devices[i]? = devices[i]?) :
    (List.range' first count).foldlM (visitForContext hsaRuntime request answers) state =
        .error .undefined ↔
      ∃ i, first ≤ i ∧ i < first + count ∧
        StartsBehindGap hsaRuntime request.deviceType devices i := by
  induction count generalizing first state with
  | zero =>
      constructor
      · intro h
        cases h
      · rintro ⟨i, hle, hlt, -⟩
        omega
  | succ count ih =>
      rw [List.range'_succ, List.foldlM_cons]
      obtain ⟨hgap, hvisit⟩ | ⟨hgap, after, hvisit, hdevices, hlater⟩ :=
        visitForContext_next hanswers hfilled hrest
      · rw [hvisit]
        exact ⟨fun _ => ⟨first, le_rfl, by omega, hgap⟩, fun _ => rfl⟩
      · rw [hvisit]
        apply (ih (first + 1) after hdevices hlater).trans
        constructor
        · rintro ⟨i, hle, hlt, hstarts⟩
          exact ⟨i, by omega, by omega, hstarts⟩
        · rintro ⟨i, hle, hlt, hstarts⟩
          have hne : i ≠ first := by
            rintro rfl
            exact hgap hstarts
          exact ⟨i, by omega, by omega, hstarts⟩

/-- The context is created, except for the loop over its devices. -/
theorem clCreateContextFromType_undefined (hsaRuntime : Bool) (request : ContextRequest)
    {answers : ℕ → HsaAnswer} (hanswers : ∀ i, (answers i).Succeeds) (world : World) :
    clCreateContextFromType hsaRuntime request answers world = .error .undefined ↔
      request.mallocContext = true ∧ request.propertiesError = none ∧
        request.mallocDevices = true ∧
        ∃ i, StartsBehindGap hsaRuntime request.deviceType
          (filledTable hsaRuntime world.devices request.deviceType) i := by
  generalize hfill : world.filled hsaRuntime request.deviceType = filled
  have hdevices : filledTable hsaRuntime world.devices request.deviceType = filled.devices := by
    rw [← hfill]
    rfl
  have hloop := foldlM_visitForContext_undefined hsaRuntime request hanswers
    filled.devices filled.devices.length 0 ⟨filled, []⟩ rfl fun _ _ => rfl
  rw [← List.range_eq_range'] at hloop
  rw [hdevices]
  unfold clCreateContextFromType
  rw [poclInitDevices_eq, hfill]
  change (if request.mallocContext = false then _ else _) = _ ↔ _
  cases hcontext : request.mallocContext with
  | false => simp
  | true =>
      rw [if_neg (by simp)]
      cases hproperties : request.propertiesError with
      | some code => simp
      | none =>
          dsimp only
          split
          · rename_i hcount
            constructor
            · intro herror
              cases herror
            · rintro ⟨-, -, -, i, device, hdevice, hmatches, -⟩
              have hnone := List.countP_eq_zero.mp hcount device (List.mem_of_getElem? hdevice)
              exact absurd (decide_eq_true hmatches) hnone
          · cases hmalloc : request.mallocDevices with
            | false => simp
            | true =>
                rw [if_neg (by simp), bind_ok_eq_error, hloop]
                constructor
                · rintro ⟨i, -, -, hgap⟩
                  exact ⟨rfl, rfl, rfl, i, hgap⟩
                · rintro ⟨-, -, -, i, hgap⟩
                  obtain ⟨device, hdevice, hrest⟩ := hgap
                  have hlt := (List.getElem?_eq_some_iff.mp hdevice).1
                  exact ⟨i, Nat.zero_le i, by omega, device, hdevice, hrest⟩

end Undefined

section Runs

variable {hsaRuntime : Bool}

/-- The type that a call passes to `pocl_init_devices`. -/
def Call.type? : Call → Option TypeBits
  | .getDeviceIDs request _ => some request.deviceType
  | .createContextFromType request _ => some request.deviceType
  | .retainDevice _ => none
  | .releaseDevice _ _ => none

/-- The table that the first call with a type leads to. -/
def firstTable (hsaRuntime : Bool) (calls : List Call) : List Device :=
  ((calls.findSome? Call.type?).map (deviceTable hsaRuntime)).getD []

theorem Known.of_devices {table : List Device} {world after : World}
    (hknown : Known hsaRuntime table world)
    (hempty : world.devices = [] → after = world)
    (hinv : Invariant hsaRuntime table world → Invariant hsaRuntime table after) :
    Known hsaRuntime table after := by
  obtain ⟨hdevices, htable, hinits⟩ | ⟨hne, hold⟩ := hknown
  · rw [hempty hdevices]
    exact Or.inl ⟨hdevices, htable, hinits⟩
  · exact Or.inr ⟨hne, hinv hold⟩

theorem step_known {table : List Device} {world after : World} {call : Call}
    (hknown : Known hsaRuntime table world) (hstep : step hsaRuntime world call = .ok after) :
    Known hsaRuntime ((call.type?.map (filledTable hsaRuntime table)).getD table) after := by
  cases call with
  | getDeviceIDs request answers =>
      obtain ⟨⟨result, world'⟩, hcall, rfl⟩ := map_eq_ok.mp hstep
      exact Or.inr ⟨filledTable_ne _ _ _, (clGetDeviceIDs_invariant hknown hcall).1⟩
  | createContextFromType request answers =>
      obtain ⟨⟨result, world'⟩, hcall, rfl⟩ := map_eq_ok.mp hstep
      exact Or.inr ⟨filledTable_ne _ _ _, (clCreateContextFromType_invariant hknown hcall).1⟩
  | retainDevice index =>
      cases hstep
      apply hknown.of_devices
      · intro hempty
        simp [clRetainDevice, hempty]
      · exact fun hinv => clRetainDevice_invariant hinv index
  | releaseDevice index shutDown =>
      apply hknown.of_devices
      · intro hempty
        simp only [step, clReleaseDevice, hempty, List.getElem?_nil] at hstep
        exact (Except.ok.inj hstep).symm
      · exact fun hinv => clReleaseDevice_invariant hinv hstep

/-- The table stays what the first call with a type has made of it. -/
theorem run_known {calls : List Call} {table : List Device} {world after : World}
    (hknown : Known hsaRuntime table world) (hrun : run hsaRuntime calls world = .ok after) :
    Known hsaRuntime (if table = [] then firstTable hsaRuntime calls else table) after := by
  induction calls generalizing table world with
  | nil =>
      cases hrun
      split
      · rename_i hempty
        rwa [hempty] at hknown
      · exact hknown
  | cons call calls ih =>
      unfold run at hrun
      rw [List.foldlM_cons, bind_eq_ok] at hrun
      obtain ⟨between, hstep, hrest⟩ := hrun
      have hafter := ih (step_known hknown hstep) hrest
      cases htype : call.type? with
      | none =>
          rw [htype] at hafter
          simpa [firstTable, htype] using hafter
      | some type =>
          rw [htype, Option.map_some, Option.getD_some, if_neg (filledTable_ne _ _ _)] at hafter
          simpa [firstTable, htype, filledTable] using hafter

/-- What holds after any calls, and what the next ones find. -/
structure Settled (hsaRuntime : Bool) (table : List Device) (world : World) : Prop where
  devices : world.devices.map Device.fresh = table
  ids : world.devices.map Device.devId = List.range world.devices.length
  inits : world.hsaInits = world.devices.countP fun device => device.isHsaInit
  agents : ∀ device ∈ world.devices, device.isHsaInit = true → device.agentId ≠ 0
  deviceIDs : ∀ request answers result after,
    clGetDeviceIDs hsaRuntime request answers world = .ok (result, after) →
      result = idsResult (filledTable hsaRuntime table request.deviceType) request ∧
      GpusStarted hsaRuntime after result.devices
  contexts : ∀ request answers devices after,
    clCreateContextFromType hsaRuntime request answers world = .ok (.created devices, after) →
      let table := filledTable hsaRuntime table request.deviceType
      devices = matchingIds table request.deviceType (List.range table.length)
  undefinedContexts : ∀ (request : ContextRequest) (answers : ℕ → HsaAnswer),
    (∀ i, (answers i).Succeeds) →
      (clCreateContextFromType hsaRuntime request answers world = .error .undefined ↔
        request.mallocContext = true ∧ request.propertiesError = none ∧
          request.mallocDevices = true ∧
          ∃ i, StartsBehindGap hsaRuntime request.deviceType
            (filledTable hsaRuntime world.devices request.deviceType) i)

theorem firstTable_devId (hsaRuntime : Bool) (calls : List Call) :
    (firstTable hsaRuntime calls).map Device.devId =
      List.range (firstTable hsaRuntime calls).length := by
  unfold firstTable
  cases calls.findSome? Call.type? with
  | none => rfl
  | some type => exact (fillDevices_deviceList hsaRuntime type).2.2.2

/-- Which devices there are depends on the first call with a type only, and which of them a
later call hands out only on that table.  The runtime is started once for each started device.
A context is created for a device of the runtime without undefined behaviour exactly if no device
in front of it is left out. -/
theorem run_settled {calls : List Call} {world : World}
    (hrun : run hsaRuntime calls World.initial = .ok world) :
    Settled hsaRuntime (firstTable hsaRuntime calls) world := by
  have hinitial : Known hsaRuntime [] World.initial := Or.inl ⟨rfl, rfl, rfl⟩
  have hknown := run_known hinitial hrun
  rw [if_pos rfl] at hknown
  have hdevices : world.devices.map Device.fresh = firstTable hsaRuntime calls := by
    obtain ⟨hempty, htable, -⟩ | ⟨-, hinv⟩ := hknown
    · rw [hempty, htable]
      rfl
    · exact hinv.devices
  constructor
  · exact hdevices
  · have hids := firstTable_devId hsaRuntime calls
    rw [← hdevices, List.map_map, List.length_map] at hids
    exact hids
  · obtain ⟨hempty, -, hinits⟩ | ⟨-, hinv⟩ := hknown
    · rw [hinits, hempty]
      rfl
    · exact hinv.inits
  · obtain ⟨hempty, -, -⟩ | ⟨-, hinv⟩ := hknown
    · simp [hempty]
    · exact hinv.agents
  · intro request answers result after hcall
    exact (clGetDeviceIDs_invariant hknown hcall).2
  · intro request answers devices after hcall
    exact (clCreateContextFromType_invariant hknown hcall).2 devices rfl
  · intro request answers hanswers
    exact clCreateContextFromType_undefined hsaRuntime request hanswers world

/-- The only agent. -/
def startedAnswer : HsaAnswer :=
  ⟨true, true, some 1⟩

/-- One device of any type is asked for, which is a CPU. -/
def anyDevice : Call :=
  .getDeviceIDs ⟨true, 0xFFFFFFFF, 1, true, true⟩ fun _ => startedAnswer

def twoDevices : World :=
  ⟨[⟨.pthread, typeCpu, true, 0, false, 0, 0⟩,
    ⟨.hsa, typeGpu ||| typeDefault, true, 1, false, 0, 0⟩], 0, 0⟩

theorem run_settled_gpuContext :
    Settled true (firstTable true [anyDevice]) twoDevices ∧
      clCreateContextFromType true ⟨typeGpu, true, none, true⟩ (fun _ => startedAnswer)
        twoDevices = .error .undefined :=
  ⟨run_settled (show run true [anyDevice] World.initial = .ok twoDevices from rfl), rfl⟩

end Runs

end Pocl.DeviceCalls
