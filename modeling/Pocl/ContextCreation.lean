import Mathlib.Data.List.Nodup
import Mathlib.Data.Multiset.AddSub
import Mathlib.Tactic

/-!
# The creation of contexts

`clCreateContext` counts the devices before it leaves out the unavailable ones, and retains
each device in the loop that may still meet a null entry.

The platform has been initialised.  The heap is the multiset of the live blocks, and an array
of devices may have entries that are not initialised.
-/

namespace Pocl.ContextCreation

abbrev DeviceId := ℕ

inductive Block
  | context
  | properties
  | devices
  | other (id : ℕ)
  deriving DecidableEq

/-- What a call changes: the reference counts of the devices and the live blocks. -/
structure World where
  references : DeviceId → ℕ
  heap : Multiset Block

inductive ClError
  | invalidValue
  | invalidProperty
  | invalidPlatform
  | invalidDevice
  | outOfHostMemory
  deriving DecidableEq

/-- The names of properties.  There is one that the runtime knows. -/
inductive PropertyName
  | platform
  | other (name : ℕ)
  deriving DecidableEq

structure Property where
  name : PropertyName
  value : ℕ
  deriving DecidableEq

structure Context where
  properties : Option (List Property)
  numProperties : ℕ
  numDevices : ℕ
  devices : List (Option DeviceId)
  valid : Bool
  deriving DecidableEq

inductive Outcome
  | undefined
  | error (code : ClError)
  | created (context : Context)
  deriving DecidableEq

/-- Which of the allocations of a call succeed. -/
structure Mallocs where
  context : Bool
  properties : Bool
  devices : Bool

/-- The devices of the platform that are available, and its own handle. -/
structure Platform where
  handle : ℕ
  available : DeviceId → Bool

section Calls

def malloc (block : Block) (world : World) : World :=
  { world with heap := block ::ₘ world.heap }

def free (block : Block) (world : World) : World :=
  { world with heap := world.heap.erase block }

def clRetainDevice (device : DeviceId) (world : World) : World :=
  { world with
    references := Function.update world.references device (world.references device + 1) }

/-- The loop of `context_set_properties`, with the names that have been seen. -/
def checkProperties (platform : Platform) :
    List PropertyName → List Property → Except ClError Unit
  | _, [] => .ok ()
  | seen, property :: properties =>
      if property.name ∈ seen then .error .invalidProperty
      else
        match property.name with
        | .platform =>
            if property.value = platform.handle then
              checkProperties platform (seen ++ [property.name]) properties
            else .error .invalidPlatform
        | .other _ => .error .invalidProperty

/-- `context_set_properties`: the properties of the context, and their number. -/
def contextSetProperties (platform : Platform) (mallocs : Mallocs)
    (properties : Option (List Property)) (world : World) :
    Except ClError (Option (List Property) × ℕ × World) :=
  match properties with
  | none => .ok (none, 0, world)
  | some properties =>
      match checkProperties platform [] properties with
      | .error code => .error code
      | .ok () =>
          if mallocs.properties then
            .ok (some properties, properties.length, malloc .properties world)
          else .error .outOfHostMemory

/-- How the loop over the devices ends: at a null entry, when the index is no `int` any more,
or with the entries that have been filled. -/
inductive Filled
  | null
  | overflow
  | done (devices : List DeviceId)
  deriving DecidableEq

/-- The loop over the devices, with the index and the entries that are filled. -/
def fillDevices (platform : Platform) :
    ℕ → List (Option DeviceId) → List DeviceId → World → Filled × World
  | _, [], filled, world => (.done filled, world)
  | i, entry :: entries, filled, world =>
      match entry with
      | none => (.null, world)
      | some device =>
          if 2 ^ 31 ≤ i + 1 then (.overflow, clRetainDevice device world)
          else
            fillDevices platform (i + 1) entries
              (if platform.available device then filled ++ [device] else filled)
              (clRetainDevice device world)

/-- `free` does nothing for a null pointer. -/
def freeProperties (properties : Option (List Property)) (world : World) : World :=
  match properties with
  | none => world
  | some _ => free .properties world

def clCreateContext (platform : Platform) (mallocs : Mallocs)
    (properties : Option (List Property)) (devices : Option (List (Option DeviceId)))
    (world : World) : Outcome × World :=
  match devices with
  | none => (.error .invalidValue, world)
  | some devices =>
      if devices = [] then (.error .invalidValue, world)
      else if !mallocs.context then (.error .outOfHostMemory, world)
      else
        let world := malloc .context world
        match contextSetProperties platform mallocs properties world with
        | .error code => (.error code, free .context world)
        | .ok (properties, numProperties, world) =>
            -- this clean-up leaves out the properties
            if !mallocs.devices then (.error .outOfHostMemory, free .context world)
            else
              match fillDevices platform 0 devices [] (malloc .devices world) with
              | (.overflow, world) => (.undefined, world)
              | (.null, world) =>
                  (.error .invalidDevice,
                    free .context (freeProperties properties (free .devices world)))
              | (.done filled, world) =>
                  (.created {
                    properties := properties
                    numProperties := numProperties
                    numDevices := devices.length
                    devices := filled.map some ++
                      List.replicate (devices.length - filled.length) none
                    valid := true }, world)

end Calls

/-- The available devices of an array, in their order. -/
def availableDevices (platform : Platform) (devices : List (Option DeviceId)) : List DeviceId :=
  (devices.filterMap id).filter platform.available

/-- A created context has the available devices, which have gained one reference each, and a
call that fails changes nothing. -/
def ConsistentCreation (platform : Platform) (mallocs : Mallocs)
    (properties : Option (List Property)) (devices : Option (List (Option DeviceId)))
    (world : World) : Prop :=
  match clCreateContext platform mallocs properties devices world with
  | (.undefined, _) => False
  | (.error _, world') => world' = world
  | (.created context, world') =>
      context.devices.take context.numDevices =
          (availableDevices platform (devices.getD [])).map some ∧
        context.numDevices = (availableDevices platform (devices.getD [])).length ∧
        ∀ device, world'.references device = world.references device +
          if device ∈ availableDevices platform (devices.getD []) then 1 else 0

section Filling

variable {platform : Platform} {entries : List (Option DeviceId)} {filled : List DeviceId}
  {world : World} {i : ℕ}

theorem le_fillDevices_references (platform : Platform) (i : ℕ)
    (entries : List (Option DeviceId)) (filled : List DeviceId) (world : World)
    (device : DeviceId) :
    world.references device ≤
      (fillDevices platform i entries filled world).2.references device := by
  induction entries generalizing i filled world with
  | nil => exact le_rfl
  | cons entry entries ih =>
      cases entry with
      | none => exact le_rfl
      | some other =>
          have hle : world.references device ≤ (clRetainDevice other world).references device := by
            simp only [clRetainDevice, Function.update_apply]
            split
            next heq => rw [heq]; exact Nat.le_succ _
            · exact le_rfl
          rw [fillDevices]
          split
          · exact hle
          · exact hle.trans (ih _ _ _)

theorem fillDevices_cons_ne (platform : Platform) (entries : List (Option DeviceId))
    (filled : List DeviceId) (world : World) (device : DeviceId) :
    (fillDevices platform 0 (some device :: entries) filled world).2.references ≠
      world.references := by
  intro hsame
  have hle := le_fillDevices_references platform 1 entries
    (if platform.available device then filled ++ [device] else filled)
    (clRetainDevice device world) device
  rw [fillDevices, if_neg (by decide), Nat.zero_add] at hsame
  rw [hsame] at hle
  simp [clRetainDevice] at hle

theorem fillDevices_done {result : List DeviceId}
    (hdone : (fillDevices platform i entries filled world).1 = .done result) :
    none ∉ entries ∧ (entries = [] ∨ i + entries.length < 2 ^ 31) ∧
      result = filled ++ availableDevices platform entries ∧
        ∀ device, (fillDevices platform i entries filled world).2.references device =
          world.references device + (entries.filterMap id).count device := by
  induction entries generalizing i filled world with
  | nil =>
      cases hdone
      simp [availableDevices, fillDevices]
  | cons entry entries ih =>
      cases entry with
      | none => cases hdone
      | some device =>
          rw [fillDevices] at hdone ⊢
          split at hdone
          · cases hdone
          next hi =>
            rw [if_neg hi]
            obtain ⟨hnull, hlength, hresult, hreferences⟩ := ih hdone
            refine ⟨by simpa using hnull, .inr ?_, ?_, fun other => ?_⟩
            · obtain rfl | hlength := hlength
              · simp only [List.length_cons, List.length_nil]
                omega
              · rw [List.length_cons]
                omega
            · rw [hresult]
              cases havailable : platform.available device <;>
                simp [availableDevices, havailable]
            · rw [hreferences, clRetainDevice]
              by_cases heq : other = device
              · simp [heq]
                omega
              · simp [heq, Ne.symm heq]

theorem fillDevices_ok (hnull : none ∉ entries) (hlength : i + entries.length < 2 ^ 31) :
    (fillDevices platform i entries filled world).1 =
      .done (filled ++ availableDevices platform entries) := by
  induction entries generalizing i filled world with
  | nil => simp [fillDevices, availableDevices]
  | cons entry entries ih =>
      cases entry with
      | none => exact absurd List.mem_cons_self hnull
      | some device =>
          rw [List.length_cons] at hlength
          rw [fillDevices, if_neg (by omega),
            ih (fun hmem => hnull (List.mem_cons_of_mem _ hmem)) (by omega)]
          cases havailable : platform.available device <;>
            simp [availableDevices, havailable]

end Filling

section Properties

variable {platform : Platform} {mallocs : Mallocs} {world : World}

theorem checkProperties_seen {properties : List Property} :
    checkProperties platform [.platform] properties = .ok () ↔ properties = [] := by
  cases properties with
  | nil => simp [checkProperties]
  | cons property properties =>
      obtain ⟨name, value⟩ := property
      cases name <;> simp [checkProperties]

theorem checkProperties_ok_iff {properties : List Property} :
    checkProperties platform [] properties = .ok () ↔
      properties = [] ∨ properties = [⟨.platform, platform.handle⟩] := by
  cases properties with
  | nil => simp [checkProperties]
  | cons property properties =>
      obtain ⟨name, value⟩ := property
      cases name with
      | platform =>
          by_cases hvalue : value = platform.handle
          · simp [checkProperties, hvalue, checkProperties_seen]
          · simp [checkProperties, hvalue]
      | other name => simp [checkProperties]

/-- The properties are valid, and there is memory for them. -/
def PropertiesSet (platform : Platform) (mallocs : Mallocs)
    (properties : Option (List Property)) : Prop :=
  ∀ list, properties = some list →
    (list = [] ∨ list = [⟨.platform, platform.handle⟩]) ∧ mallocs.properties = true

def mallocProperties (properties : Option (List Property)) (world : World) : World :=
  match properties with
  | none => world
  | some _ => malloc .properties world

theorem contextSetProperties_cases (properties : Option (List Property)) (world : World) :
    (PropertiesSet platform mallocs properties ∧
      ∃ count, contextSetProperties platform mallocs properties world =
        .ok (properties, count, mallocProperties properties world)) ∨
    (¬ PropertiesSet platform mallocs properties ∧
      ∃ code, contextSetProperties platform mallocs properties world = .error code) := by
  cases properties with
  | none => exact .inl ⟨fun _ hlist => (by cases hlist), 0, rfl⟩
  | some list =>
      have hset : PropertiesSet platform mallocs (some list) ↔
          checkProperties platform [] list = .ok () ∧ mallocs.properties = true := by
        rw [checkProperties_ok_iff]
        exact ⟨fun hset => hset list rfl, fun hset _ hlist => Option.some.inj hlist ▸ hset⟩
      rw [hset, contextSetProperties]
      cases hcheck : checkProperties platform [] list with
      | error code => exact .inr ⟨by simp, code, rfl⟩
      | ok _ =>
          cases hmalloc : mallocs.properties with
          | false => exact .inr ⟨by simp, .outOfHostMemory, rfl⟩
          | true => exact .inl ⟨⟨rfl, rfl⟩, list.length, rfl⟩

end Properties

section Worlds

variable {world : World}

theorem free_malloc (block : Block) (world : World) : free block (malloc block world) = world := by
  rw [free, malloc, Multiset.erase_cons_head]

/-- The clean-up after a null entry frees the blocks in another order than they came in. -/
theorem free_all (properties : Option (List Property)) :
    free .context (freeProperties properties (free .devices (malloc .devices
      (mallocProperties properties (malloc .context world))))) = world := by
  rw [free_malloc]
  cases properties with
  | none => exact free_malloc .context world
  | some list =>
      change free .context (free .properties (malloc .properties (malloc .context world))) = world
      rw [free_malloc, free_malloc]

theorem free_context_iff (properties : Option (List Property)) :
    free .context (mallocProperties properties (malloc .context world)) = world ↔
      properties = none := by
  cases properties with
  | none => exact iff_of_true (free_malloc .context world) rfl
  | some list =>
      refine iff_of_false (fun hsame => ?_) (by simp)
      have hcard := congrArg (fun world => Multiset.card world.heap) hsame
      simp [free, mallocProperties, malloc] at hcard

end Worlds

section Consistency

variable {platform : Platform} {mallocs : Mallocs} {properties : Option (List Property)}
  {entries : List (Option DeviceId)} {world : World}

theorem mallocProperties_references (world : World) :
    (mallocProperties properties world).references = world.references := by
  cases properties <;> rfl

theorem exists_map_some (hnull : none ∉ entries) : ∃ devices : List DeviceId,
    entries = devices.map some := by
  induction entries with
  | nil => exact ⟨[], rfl⟩
  | cons entry entries ih =>
      obtain ⟨devices, rfl⟩ := ih fun hmem => hnull (List.mem_cons_of_mem _ hmem)
      cases entry with
      | none => exact absurd List.mem_cons_self hnull
      | some device => exact ⟨device :: devices, rfl⟩

/-- The entries are different devices, all available, and their number is an `int`. -/
def AllAvailable (platform : Platform) (entries : List (Option DeviceId)) : Prop :=
  ∃ devices : List DeviceId, entries = devices.map some ∧
    (∀ device ∈ devices, platform.available device = true) ∧ devices.Nodup ∧
      devices.length < 2 ^ 31

theorem AllAvailable.fills (hall : AllAvailable platform entries) (start : World) :
    (fillDevices platform 0 entries [] start).1 =
      .done (availableDevices platform entries) := by
  obtain ⟨devices, rfl, -, -, hlength⟩ := hall
  rw [fillDevices_ok (by simp) (by rwa [Nat.zero_add, List.length_map]), List.nil_append]

theorem count_eq_ite_iff (devices : List DeviceId) :
    (∀ device, devices.count device = if device ∈ devices then 1 else 0) ↔ devices.Nodup := by
  rw [List.nodup_iff_count_le_one]
  refine forall_congr' fun device => ?_
  by_cases hmem : device ∈ devices
  · have hpos := List.count_pos_iff.mpr hmem
    rw [if_pos hmem]
    omega
  · rw [if_neg hmem, List.count_eq_zero_of_not_mem hmem]
    simp

/-- The filled array has the available devices exactly if there are no others. -/
theorem filled_take_iff (devices : List DeviceId) :
    (((availableDevices platform (devices.map some)).map some ++
          List.replicate ((devices.map some).length -
            (availableDevices platform (devices.map some)).length) none).take
        (devices.map some).length =
          (availableDevices platform (devices.map some)).map some ∧
      (devices.map some).length = (availableDevices platform (devices.map some)).length) ↔
      ∀ device ∈ devices, platform.available device = true := by
  have havailable : availableDevices platform (devices.map some) =
      devices.filter platform.available := by
    rw [availableDevices, List.filterMap_map]
    exact congrArg _ List.filterMap_some
  rw [havailable, List.length_map]
  constructor
  · rintro ⟨-, hlength⟩
    exact List.length_filter_eq_length_iff.mp hlength.symm
  · intro hall
    rw [List.filter_eq_self.mpr hall]
    simp

/-- The loop over the devices keeps the promise exactly if it fills the whole array. -/
theorem consistent_done_iff {filled : List DeviceId} {start : World}
    (hdone : (fillDevices platform 0 entries [] start).1 = .done filled) (hne : entries ≠ [])
    (hreferences : start.references = world.references) :
    ((filled.map some ++ List.replicate (entries.length - filled.length) none).take
          entries.length = (availableDevices platform entries).map some ∧
        entries.length = (availableDevices platform entries).length ∧
        ∀ device, (fillDevices platform 0 entries [] start).2.references device =
          world.references device +
            if device ∈ availableDevices platform entries then 1 else 0) ↔
      AllAvailable platform entries := by
  obtain ⟨hnull, hlength, rfl, hcount⟩ := fillDevices_done hdone
  obtain ⟨devices, rfl⟩ := exists_map_some hnull
  have hshort : devices.length < 2 ^ 31 := by
    have hle := hlength.resolve_left hne
    rwa [Nat.zero_add, List.length_map] at hle
  have hids : (devices.map some).filterMap id = devices := by
    rw [List.filterMap_map]
    exact List.filterMap_some
  simp only [hcount, hids, hreferences, Nat.add_left_cancel_iff, List.nil_append]
  rw [← and_assoc, filled_take_iff]
  constructor
  · rintro ⟨hall, hnodup⟩
    rw [availableDevices, hids, List.filter_eq_self.mpr hall] at hnodup
    exact ⟨devices, rfl, hall, (count_eq_ite_iff devices).mp hnodup, hshort⟩
  · rintro ⟨other, hother, hall, hnodup, -⟩
    obtain rfl := List.map_injective_iff.mpr (Option.some_injective _) hother
    refine ⟨hall, ?_⟩
    rw [availableDevices, hids, List.filter_eq_self.mpr hall]
    exact (count_eq_ite_iff devices).mpr hnodup

theorem clCreateContext_eq (world : World) (hne : entries ≠ []) (hcontext : mallocs.context = true)
    (hset : PropertiesSet platform mallocs properties) :
    ∃ count, clCreateContext platform mallocs properties (some entries) world =
      if !mallocs.devices then
        (.error .outOfHostMemory, free .context (mallocProperties properties
          (malloc .context world)))
      else
        match fillDevices platform 0 entries [] (malloc .devices (mallocProperties properties
            (malloc .context world))) with
        | (.overflow, world) => (.undefined, world)
        | (.null, world) =>
            (.error .invalidDevice,
              free .context (freeProperties properties (free .devices world)))
        | (.done filled, world) =>
            (.created {
              properties := properties
              numProperties := count
              numDevices := entries.length
              devices := filled.map some ++
                List.replicate (entries.length - filled.length) none
              valid := true }, world) := by
  obtain ⟨-, count, hok⟩ := (contextSetProperties_cases properties
    (malloc .context world)).resolve_right fun hfails => hfails.1 hset
  refine ⟨count, ?_⟩
  simp only [clCreateContext, if_neg hne, hcontext, Bool.not_true, Bool.false_eq_true, if_false,
    hok]

/-- A call that gets to the devices. -/
theorem consistent_devices_iff (hne : entries ≠ []) (hcontext : mallocs.context = true)
    (hset : PropertiesSet platform mallocs properties) :
    ConsistentCreation platform mallocs properties (some entries) world ↔
      if mallocs.devices = true then entries.head? = some none ∨ AllAvailable platform entries
      else properties = none := by
  obtain ⟨count, hcall⟩ := clCreateContext_eq world hne hcontext hset
  rw [ConsistentCreation, hcall]
  cases hdevices : mallocs.devices with
  | false => exact free_context_iff properties
  | true =>
      simp only [Bool.not_true, Bool.false_eq_true, if_false, if_true]
      have hreferences : (malloc .devices (mallocProperties properties
          (malloc .context world))).references = world.references :=
        mallocProperties_references (malloc .context world)
      obtain ⟨entry, rest, rfl⟩ := List.exists_cons_of_ne_nil hne
      cases entry with
      | none =>
          refine iff_of_true ?_ (.inl rfl)
          rw [fillDevices]
          exact free_all properties
      | some device =>
          generalize hstart : malloc .devices (mallocProperties properties
            (malloc .context world)) = start at hreferences ⊢
          have hretained := fillDevices_cons_ne platform rest [] start device
          have hfills (hall : AllAvailable platform (some device :: rest)) := hall.fills start
          simp only [List.head?_cons, Option.some.injEq, reduceCtorEq, false_or]
          cases hfill : fillDevices platform 0 (some device :: rest) [] start with
          | mk result final =>
              rw [hfill] at hretained hfills
              cases result with
              | overflow => exact iff_of_false id fun hall => by cases hfills hall
              | null =>
                  refine iff_of_false (fun hsame => hretained ?_) fun hall => by
                    cases hfills hall
                  rw [hreferences, ← hsame]
                  cases properties <;> rfl
              | done filled =>
                  have hdone := consistent_done_iff (congrArg Prod.fst hfill) (List.cons_ne_nil _ _)
                    hreferences
                  rw [hfill] at hdone
                  exact hdone

theorem consistentCreation_iff (platform : Platform) (mallocs : Mallocs)
    (properties : Option (List Property)) (devices : Option (List (Option DeviceId)))
    (world : World) :
    ConsistentCreation platform mallocs properties devices world ↔
      ∀ entries, devices = some entries → entries ≠ [] → mallocs.context = true →
        PropertiesSet platform mallocs properties →
          if mallocs.devices = true then
            entries.head? = some none ∨ AllAvailable platform entries
          else properties = none := by
  cases devices with
  | none => exact iff_of_true rfl fun _ hdevices => by cases hdevices
  | some entries =>
      simp only [Option.some.injEq, forall_eq']
      by_cases hne : entries = []
      · exact iff_of_true (by simp [ConsistentCreation, clCreateContext, hne]) (absurd hne)
      by_cases hcontext : mallocs.context = true
      · by_cases hset : PropertiesSet platform mallocs properties
        · simp only [ne_eq, hne, not_false_eq_true, hcontext, hset, true_imp_iff]
          exact consistent_devices_iff hne hcontext hset
        · obtain ⟨-, code, herror⟩ := (contextSetProperties_cases properties
            (malloc .context world)).resolve_left fun hdone => hset hdone.1
          refine iff_of_true ?_ fun _ _ hset' => absurd hset' hset
          simp [ConsistentCreation, clCreateContext, hne, hcontext, herror, free_malloc]
      · exact iff_of_true (by simp [ConsistentCreation, clCreateContext, hne, hcontext])
          fun _ hcontext' => absurd hcontext' hcontext

/-! ## Unavailable and missing devices -/

/-- The devices with an even identifier are available. -/
def evenPlatform : Platform where
  handle := 0
  available device := device % 2 == 0

def idleWorld : World where
  references _ := 1
  heap := 0

/-- An unavailable device leaves an entry that is not initialised, and the devices before a
null entry keep a reference. -/
theorem not_consistentCreation :
    ¬ ConsistentCreation evenPlatform ⟨true, true, true⟩ none (some [some 0, some 1])
        idleWorld ∧
      ¬ ConsistentCreation evenPlatform ⟨true, true, true⟩ none (some [some 0, none])
        idleWorld := by
  constructor
  · exact fun hcreated => absurd hcreated.2.1 (by decide)
  · intro hsame
    have hreferences : World.references _ 0 = idleWorld.references 0 :=
      congrArg (fun world => World.references world 0) hsame
    exact absurd hreferences (by decide)

end Consistency

end Pocl.ContextCreation
