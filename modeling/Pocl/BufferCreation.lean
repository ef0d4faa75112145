import Mathlib.Data.BitVec
import Mathlib.Data.Multiset.AddSub
import Pocl.BufferInstances
import Pocl.NDRanges

/-!
# The creation of buffers

`clCreateBuffer` allocates the memory object, a table of pointers and one instance of the
buffer on each device of the context.  The clean-up after a failed instance frees the others
and the object, but not the table.

The heap is the multiset of the live blocks of the host, and the answers of the devices to
their requests are given in the order of the requests.
-/

namespace Pocl.BufferCreation

open KernelArguments

abbrev MemFlags := BitVec 64

def MemFlags.readWrite : MemFlags := 1
def MemFlags.writeOnly : MemFlags := 2
def MemFlags.readOnly : MemFlags := 4
def MemFlags.useHostPtr : MemFlags := 8
def MemFlags.allocHostPtr : MemFlags := 16
def MemFlags.copyHostPtr : MemFlags := 32
def MemFlags.hostWriteOnly : MemFlags := 128
def MemFlags.hostReadOnly : MemFlags := 256
def MemFlags.hostNoAccess : MemFlags := 512

/-- `flags & flag` as a condition. -/
def MemFlags.has (flags flag : MemFlags) : Bool :=
  flags &&& flag != 0

inductive ClError
  | invalidContext
  | invalidValue
  | invalidHostPtr
  | invalidBufferSize
  | outOfHostMemory
  | memObjectAllocationFailure
  deriving DecidableEq

inductive Block
  | mem
  | devicePtrs
  | other (id : ℕ)
  deriving DecidableEq

structure World where
  contextReferences : ℕ
  heap : Multiset Block

/-- The instances that devices have made and freed in a call. -/
structure Instances where
  made : List (Device × Option ℕ)
  freed : List (Device × Option ℕ)
  deriving DecidableEq

structure Mem where
  references : ℕ
  flags : MemFlags
  size : SizeT
  devicePtrs : List (Option ℕ)
  memHostPtr : Option ℕ

/-- The arguments of a call, and what the allocators answer. -/
structure Request where
  flags : MemFlags
  size : SizeT
  hostPtr : Option ℕ
  maxMemAllocSize : Device → SizeT
  memAllocated : Bool
  tableAllocated : Bool
  /-- The pointer of the instance for the device at each position of the context. -/
  instances : ℕ → Option ℕ

section Checks

/-- The combinations of flags that exclude each other. -/
def conflicting (flags : MemFlags) : Bool :=
  (flags.has .readWrite && (flags.has .writeOnly || flags.has .readOnly)) ||
    (flags.has .readOnly && flags.has .writeOnly) ||
    (flags.has .useHostPtr && (flags.has .allocHostPtr || flags.has .copyHostPtr)) ||
    (flags.has .hostWriteOnly && flags.has .hostReadOnly) ||
    (flags.has .hostNoAccess && (flags.has .hostReadOnly || flags.has .hostWriteOnly))

/-- The flags that a call works with, if its arguments are valid. -/
def checkArguments (context : Context) (request : Request) : Except ClError MemFlags :=
  if request.size = 0 then .error .outOfHostMemory
  else
    let flags := if request.flags = 0 then .readWrite else request.flags
    if (1 <<< 10) - 1 < flags then .error .invalidValue
    else if conflicting flags then .error .invalidValue
    else if request.hostPtr = none ∧ (flags.has .useHostPtr ∨ flags.has .copyHostPtr) then
      .error .invalidHostPtr
    else if request.hostPtr ≠ none ∧ MemFlags.has (~~~flags) .useHostPtr ∧
        MemFlags.has (~~~flags) .copyHostPtr then
      .error .invalidHostPtr
    else if context.devices.any
        (fun device => decide (request.maxMemAllocSize device < request.size)) then
      .error .invalidBufferSize
    else .ok flags

end Checks

section Calls

def malloc (block : Block) (world : World) : World :=
  { world with heap := block ::ₘ world.heap }

def free (block : Block) (world : World) : World :=
  { world with heap := world.heap.erase block }

/-- The loop over the devices: the object and the instances, with the position of a device
that has no memory. -/
def makeInstances (request : Request) (flags : MemFlags) :
    ℕ → List Device → Mem → List (Device × Option ℕ) →
      Option ℕ × Mem × List (Device × Option ℕ)
  | _, [], mem, made => (none, mem, made)
  | i, device :: devices, mem, made =>
      let mem := if 0 < i then { mem with references := mem.references + 1 } else mem
      match request.instances i with
      | none => (some i, mem, made)
      | some devicePtr =>
          makeInstances request flags (i + 1) devices
            { mem with
              devicePtrs := mem.devicePtrs.set device.devId (some devicePtr)
              memHostPtr :=
                if flags.has (.allocHostPtr ||| .useHostPtr) then request.hostPtr else none }
            (made ++ [(device, some devicePtr)])

/-- The clean-up of the first devices. -/
def freeInstances (mem : Mem) (devices : List Device) : List (Device × Option ℕ) :=
  devices.map fun device => (device, mem.devicePtrs[device.devId]?.join)

def clCreateBuffer (context : Option Context) (request : Request) (world : World) :
    Except ClError Mem × World × Instances :=
  match context with
  | none => (.error .invalidContext, world, ⟨[], []⟩)
  | some context =>
      if !request.memAllocated then (.error .outOfHostMemory, world, ⟨[], []⟩)
      else
        let world := malloc .mem world
        match checkArguments context request with
        | .error code => (.error code, free .mem world, ⟨[], []⟩)
        | .ok flags =>
            if !request.tableAllocated then
              (.error .outOfHostMemory, free .mem world, ⟨[], []⟩)
            else
              let world := malloc .devicePtrs world
              let mem : Mem := {
                references := 1
                flags := flags
                size := request.size
                devicePtrs := List.replicate context.numPlatformDevices none
                memHostPtr := none }
              match makeInstances request flags 0 context.devices mem [] with
              | (some i, mem, made) =>
                  (.error .memObjectAllocationFailure, free .mem world,
                    ⟨made, freeInstances mem (context.devices.take i)⟩)
              | (none, mem, made) =>
                  (.ok mem, { world with contextReferences := world.contextReferences + 1 },
                    ⟨made, []⟩)

end Calls

/-- A failed call has freed what it has allocated, and a successful one has stored the
instance of each device of the context. -/
def AllOrNothing (context : Option Context) (request : Request) (world : World) : Prop :=
  match clCreateBuffer context request world with
  | (.error _, world', instances) =>
      instances.freed.Perm instances.made ∧ world'.heap = world.heap ∧
        world'.contextReferences = world.contextReferences
  | (.ok mem, _, _) =>
      ∀ given, context = some given → ∀ i device, given.devices[i]? = some device →
        ∃ devicePtr, request.instances i = some devicePtr ∧
          mem.devicePtrs[device.devId]? = some (some devicePtr)

section Instances

variable {context : Context} {request : Request} {flags : MemFlags}

/-- The loop succeeds exactly if all devices have memory. -/
theorem makeInstances_none_iff
    (request : Request) (flags : MemFlags) (i : ℕ) (devices : List Device) (mem : Mem)
    (made : List (Device × Option ℕ)) :
    (makeInstances request flags i devices mem made).1 = none ↔
      ∀ k < devices.length, request.instances (i + k) ≠ none := by
  induction devices generalizing i mem made with
  | nil => simp [makeInstances]
  | cons device devices ih =>
      rw [makeInstances]
      cases hinstance : request.instances i with
      | none =>
          refine iff_of_false (by simp) fun hall => hall 0 (Nat.succ_pos _) ?_
          rw [Nat.add_zero, hinstance]
      | some devicePtr =>
          dsimp only
          rw [ih, List.length_cons]
          constructor
          · intro hall k hk
            cases k with
            | zero => rw [Nat.add_zero, hinstance]; exact Option.some_ne_none _
            | succ k =>
                rw [Nat.add_succ, ← Nat.succ_add]
                exact hall k (Nat.lt_of_succ_lt_succ hk)
          · intro hall k hk
            rw [Nat.succ_add, ← Nat.add_succ]
            exact hall (k + 1) (Nat.succ_lt_succ hk)

/-- The table after the loop has been set at each `dev_id` in turn. -/
theorem makeInstances_devicePtrs (i : ℕ) (devices : List Device) (mem : Mem)
    (made : List (Device × Option ℕ))
    (hall : ∀ k < devices.length, request.instances (i + k) ≠ none) :
    (makeInstances request flags i devices mem made).2.1.devicePtrs =
      (devices.zipIdx i).foldl
        (fun ptrs entry => ptrs.set entry.1.devId
          (some ((request.instances entry.2).getD 0))) mem.devicePtrs := by
  induction devices generalizing i mem made with
  | nil => rfl
  | cons device devices ih =>
      have hhead := hall 0 (Nat.succ_pos _)
      rw [Nat.add_zero] at hhead
      obtain ⟨devicePtr, hinstance⟩ := Option.ne_none_iff_exists'.mp hhead
      rw [makeInstances, hinstance]
      dsimp only
      rw [ih, List.zipIdx_cons, List.foldl_cons, hinstance, Option.getD_some]
      · split <;> rfl
      · intro k hk
        rw [Nat.succ_add, ← Nat.add_succ]
        exact hall (k + 1) (Nat.succ_lt_succ hk)

/-- The instances that the loop has made. -/
theorem makeInstances_made (i : ℕ) (devices : List Device) (mem : Mem)
    (made : List (Device × Option ℕ))
    (hall : ∀ k < devices.length, request.instances (i + k) ≠ none) :
    (makeInstances request flags i devices mem made).2.2 =
      made ++ (devices.zipIdx i).map fun entry => (entry.1, request.instances entry.2) := by
  induction devices generalizing i mem made with
  | nil => simp [makeInstances]
  | cons device devices ih =>
      have hhead := hall 0 (Nat.succ_pos _)
      rw [Nat.add_zero] at hhead
      obtain ⟨devicePtr, hinstance⟩ := Option.ne_none_iff_exists'.mp hhead
      rw [makeInstances, hinstance]
      dsimp only
      rw [ih, List.zipIdx_cons, List.map_cons, hinstance, List.append_assoc,
        List.singleton_append]
      intro k hk
      rw [Nat.succ_add, ← Nat.add_succ]
      exact hall (k + 1) (Nat.succ_lt_succ hk)

/-- A loop that fails has done what the loop over the devices before does. -/
theorem makeInstances_some (i : ℕ) (devices : List Device) (mem : Mem)
    (made : List (Device × Option ℕ)) {failed : ℕ}
    (hfailed : (makeInstances request flags i devices mem made).1 = some failed) :
    ∃ n < devices.length, failed = i + n ∧ (∀ k < n, request.instances (i + k) ≠ none) ∧
      (makeInstances request flags i devices mem made).2.1.devicePtrs =
        (makeInstances request flags i (devices.take n) mem made).2.1.devicePtrs ∧
      (makeInstances request flags i devices mem made).2.2 =
        (makeInstances request flags i (devices.take n) mem made).2.2 := by
  induction devices generalizing i mem made with
  | nil => cases hfailed
  | cons device devices ih =>
      rw [makeInstances] at hfailed ⊢
      cases hinstance : request.instances i with
      | none =>
          rw [hinstance] at hfailed
          refine ⟨0, Nat.succ_pos _, (Option.some.inj hfailed).symm, by simp, ?_, rfl⟩
          dsimp only [List.take_zero, makeInstances]
          split <;> rfl
      | some devicePtr =>
          rw [hinstance] at hfailed
          obtain ⟨n, hn, rfl, hbefore, hptrs, hmade⟩ := ih _ _ _ hfailed
          refine ⟨n + 1, Nat.succ_lt_succ hn, Nat.succ_add_eq_add_succ i n, ?_, ?_, ?_⟩
          · intro k hk
            cases k with
            | zero => rw [Nat.add_zero, hinstance]; exact Option.some_ne_none _
            | succ k =>
                rw [Nat.add_succ, ← Nat.succ_add]
                exact hbefore k (Nat.lt_of_succ_lt_succ hk)
          · rw [List.take_succ_cons, makeInstances, hinstance]
            exact hptrs
          · rw [List.take_succ_cons, makeInstances, hinstance]
            exact hmade

/-- The first devices of a context. -/
def firstDevices (context : Context) (n : ℕ) : Context where
  numPlatformDevices := context.numPlatformDevices
  devices := context.devices.take n
  devId_lt device hdevice := context.devId_lt device (List.mem_of_mem_take hdevice)
  devId_injective first hfirst second hsecond :=
    context.devId_injective first (List.mem_of_mem_take hfirst) second
      (List.mem_of_mem_take hsecond)
  data_injective first hfirst second hsecond :=
    context.data_injective first (List.mem_of_mem_take hfirst) second
      (List.mem_of_mem_take hsecond)

theorem makeInstances_table (context : Context) (request : Request) (flags : MemFlags) (mem : Mem)
    (made : List (Device × Option ℕ))
    (htable : mem.devicePtrs = List.replicate context.numPlatformDevices none)
    (hall : ∀ k < context.devices.length, request.instances k ≠ none) :
    (makeInstances request flags 0 context.devices mem made).2.1.devicePtrs =
      KernelArguments.clCreateBuffer context fun i => (request.instances i).getD 0 := by
  rw [makeInstances_devicePtrs 0 _ _ _ fun k hk => by rw [Nat.zero_add]; exact hall k hk, htable]
  rfl

theorem exists_table_entry {device : Device} (hdevice : device ∈ context.devices)
    (hall : ∀ k < context.devices.length, request.instances k ≠ none) :
    ∃ position devicePtr, context.devices[position]? = some device ∧
      request.instances position = some devicePtr ∧
        (KernelArguments.clCreateBuffer context
          fun i => (request.instances i).getD 0)[device.devId]? = some (some devicePtr) := by
  obtain ⟨position, hposition, hfind⟩ := exists_allocation hdevice
  obtain ⟨hlt, -⟩ := List.getElem?_eq_some_iff.mp hposition
  obtain ⟨devicePtr, hinstance⟩ := Option.ne_none_iff_exists'.mp (hall position hlt)
  refine ⟨position, devicePtr, hposition, hinstance, ?_⟩
  rw [clCreateBuffer_devId hdevice, allocation, hfind, Option.map_some, hinstance,
    Option.getD_some]

theorem table_eq_instances (context : Context) (hdistinct : context.devices.Nodup)
    (hall : ∀ k < context.devices.length, request.instances k ≠ none) :
    (context.devices.map fun device => (device, ((KernelArguments.clCreateBuffer context
        fun i => (request.instances i).getD 0)[device.devId]?).join)) =
      context.devices.zipIdx.map fun entry => (entry.1, request.instances entry.2) := by
  refine List.ext_getElem (by simp) fun i hi _ => ?_
  rw [List.length_map] at hi
  obtain ⟨position, devicePtr, hposition, hinstance, hentry⟩ :=
    exists_table_entry (List.getElem_mem hi) hall
  have hsame : position = i := by
    obtain ⟨hlt, heq⟩ := List.getElem?_eq_some_iff.mp hposition
    exact (hdistinct.getElem_inj_iff).mp heq
  rw [hsame] at hinstance
  simp [hentry, hinstance]

end Instances

section Outcome

variable {context : Context} {request : Request} {flags : MemFlags} {world : World}

/-- The call gets to the instances. -/
structure Reaches (context : Context) (request : Request) (flags : MemFlags) : Prop where
  mem : request.memAllocated = true
  arguments : checkArguments context request = .ok flags
  table : request.tableAllocated = true

/-- The memory object before its first instance. -/
def freshMem (context : Context) (request : Request) (flags : MemFlags) : Mem where
  references := 1
  flags := flags
  size := request.size
  devicePtrs := List.replicate context.numPlatformDevices none
  memHostPtr := none

theorem clCreateBuffer_of_reaches (hreaches : Reaches context request flags) (world : World) :
    clCreateBuffer (some context) request world =
      match makeInstances request flags 0 context.devices (freshMem context request flags) []
      with
      | (some i, mem, made) =>
          (.error .memObjectAllocationFailure, free .mem (malloc .devicePtrs (malloc .mem world)),
            ⟨made, freeInstances mem (context.devices.take i)⟩)
      | (none, mem, made) =>
          (.ok mem, { malloc .devicePtrs (malloc .mem world) with
            contextReferences := world.contextReferences + 1 }, ⟨made, []⟩) := by
  simp only [clCreateBuffer, hreaches.mem, hreaches.arguments, hreaches.table, Bool.not_true,
    Bool.false_eq_true, if_false]
  rfl

theorem free_malloc (block : Block) (world : World) : free block (malloc block world) = world := by
  rw [free, malloc, Multiset.erase_cons_head]

theorem clCreateBuffer_of_not_reaches
    (hrefused : ∀ flags, ¬ Reaches context request flags) (world : World) :
    ∃ code, clCreateBuffer (some context) request world = (.error code, world, ⟨[], []⟩) := by
  unfold clCreateBuffer
  cases hmem : request.memAllocated with
  | false => exact ⟨_, rfl⟩
  | true =>
      cases harguments : checkArguments context request with
      | error code => exact ⟨code, by simp [free_malloc, harguments]⟩
      | ok flags =>
          cases htable : request.tableAllocated with
          | false => exact ⟨.outOfHostMemory, by simp [free_malloc, harguments]⟩
          | true => exact absurd ⟨hmem, harguments, htable⟩ (hrefused flags)

theorem free_mem_heap_ne (world : World) :
    (free .mem (malloc .devicePtrs (malloc .mem world))).heap ≠ world.heap := by
  intro hsame
  have hcard := congrArg Multiset.card hsame
  simp [free, malloc] at hcard

/-- The instances that a failed call frees are those that it has made, if no device occurs
twice in the context. -/
theorem freed_eq_made (hdistinct : context.devices.Nodup) {code : ClError} {world' : World}
    {instances : Instances}
    (hfailed : clCreateBuffer (some context) request world = (.error code, world', instances)) :
    instances.freed = instances.made := by
  by_cases hreaches : ∃ flags, Reaches context request flags
  · obtain ⟨flags, hreaches⟩ := hreaches
    rw [clCreateBuffer_of_reaches hreaches] at hfailed
    split at hfailed
    next i mem made hloop =>
      cases hfailed
      obtain ⟨n, hn, rfl, hbefore, hptrs, hmade⟩ := makeInstances_some 0 context.devices
        (freshMem context request flags) [] (congrArg Prod.fst hloop)
      have hlength : (firstDevices context n).devices.length = n :=
        List.length_take_of_le hn.le
      have hall : ∀ k < (firstDevices context n).devices.length,
          request.instances k ≠ none := fun k hk => by
        have hinstance := hbefore k (hk.trans_eq hlength)
        rwa [Nat.zero_add] at hinstance
      rw [hloop] at hptrs hmade
      replace hptrs := hptrs.trans (makeInstances_table (firstDevices context n) request flags
        (freshMem context request flags) [] rfl hall)
      replace hmade := hmade.trans (makeInstances_made 0 (firstDevices context n).devices _ []
        fun k hk => by rw [Nat.zero_add]; exact hall k hk)
      dsimp only at hptrs hmade ⊢
      rw [hmade, List.nil_append, freeInstances, hptrs, Nat.zero_add]
      exact table_eq_instances (firstDevices context n)
        (hdistinct.sublist (List.take_sublist n _)) hall
    next => cases hfailed
  · obtain ⟨_, hcall⟩ := clCreateBuffer_of_not_reaches (not_exists.mp hreaches) world
    rw [hcall] at hfailed
    cases hfailed
    rfl

/-- Every device has memory, and a device that occurs twice answers with one pointer. -/
structure InstancesStored (context : Context) (request : Request) : Prop where
  allocated : ∀ i < context.devices.length, request.instances i ≠ none
  same : ∀ i j device, context.devices[i]? = some device → context.devices[j]? = some device →
    request.instances i = request.instances j

theorem allOrNothing_of_reaches (hreaches : Reaches context request flags) (world : World) :
    AllOrNothing (some context) request world ↔ InstancesStored context request := by
  rw [AllOrNothing, clCreateBuffer_of_reaches hreaches]
  have hnone := makeInstances_none_iff request flags 0 context.devices
    (freshMem context request flags) []
  simp only [Nat.zero_add] at hnone
  split
  next code world' instances hcall =>
    split at hcall
    next i mem made hloop =>
      cases hcall
      rw [hloop] at hnone
      refine iff_of_false (fun hkept => free_mem_heap_ne world hkept.2.1) fun hstored => ?_
      exact absurd (hnone.mpr hstored.allocated) (by simp)
    next => cases hcall
  next result world' instances hcall =>
    split at hcall
    next => cases hcall
    next mem made hloop =>
      cases hcall
      rw [hloop] at hnone
      have hall := hnone.mp rfl
      have htable := makeInstances_table context request flags (freshMem context request flags)
        [] rfl hall
      rw [hloop] at htable
      dsimp only at htable
      constructor
      · intro hstored
        refine ⟨hall, fun i j device hi hj => ?_⟩
        obtain ⟨first, hfirst, hfirstEntry⟩ := hstored context rfl i device hi
        obtain ⟨second, hsecond, hsecondEntry⟩ := hstored context rfl j device hj
        rw [hfirst, hsecond]
        exact Option.some.inj (hfirstEntry.symm.trans hsecondEntry)
      · intro hstored given hgiven i device hdevice
        obtain rfl := Option.some.inj hgiven
        obtain ⟨position, devicePtr, hposition, hinstance, hentry⟩ :=
          exists_table_entry (List.mem_of_getElem? hdevice) hall
        rw [htable]
        exact ⟨devicePtr, (hstored.same i position device hdevice hposition).trans hinstance,
          hentry⟩

theorem allOrNothing_iff (context : Option Context) (request : Request) (world : World) :
    AllOrNothing context request world ↔
      ∀ given flags, context = some given → Reaches given request flags →
        InstancesStored given request := by
  cases context with
  | none =>
      exact iff_of_true ⟨List.Perm.refl _, rfl, rfl⟩ fun _ _ hgiven => by cases hgiven
  | some context =>
      by_cases hreaches : ∃ flags, Reaches context request flags
      · obtain ⟨flags, hreaches⟩ := hreaches
        rw [allOrNothing_of_reaches hreaches]
        constructor
        · intro hstored given _ hgiven _
          exact Option.some.inj hgiven ▸ hstored
        · exact fun hstored => hstored context flags rfl hreaches
      · have hrefused := not_exists.mp hreaches
        obtain ⟨code, hcall⟩ := clCreateBuffer_of_not_reaches hrefused world
        rw [AllOrNothing, hcall]
        refine iff_of_true ⟨List.Perm.refl _, rfl, rfl⟩ fun given flags hgiven hreaches => ?_
        exact absurd (Option.some.inj hgiven ▸ hreaches) (hrefused flags)

/-! ## A device without memory -/

def smallContext : Context where
  numPlatformDevices := 1
  devices := [⟨0, 0, .basic⟩]
  devId_lt := by decide
  devId_injective := by decide
  data_injective := by decide

def fullDevice : Request where
  flags := 0
  size := 16
  hostPtr := none
  maxMemAllocSize _ := 1024
  memAllocated := true
  tableAllocated := true
  instances _ := none

def emptyHeap : World where
  contextReferences := 1
  heap := 0

theorem fullDevice_not_allOrNothing : ¬ AllOrNothing (some smallContext) fullDevice emptyHeap := by
  have hreaches : Reaches smallContext fullDevice .readWrite := ⟨rfl, by decide, rfl⟩
  rw [allOrNothing_of_reaches hreaches]
  exact fun hstored => hstored.allocated 0 (by decide) rfl

end Outcome

end Pocl.BufferCreation
