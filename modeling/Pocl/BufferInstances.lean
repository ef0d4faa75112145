import Pocl.KernelArguments
import Mathlib.Data.List.Find
import Mathlib.Data.List.Induction

/-!
# The instances of a buffer on the devices of its context

`clCreateBuffer` stores the pointer of each device at the index `dev_id`.  The
drivers read it at the position of the device in the context, at the `dev_id` of the
first GPU, at index zero, or at their `dev_id`.
-/

namespace Pocl.KernelArguments

/-- `device_ptrs` after `clCreateBuffer`; the allocation for the device at each
position of the context is given. -/
def clCreateBuffer (context : Context) (allocated : ℕ → ℕ) : List (Option ℕ) :=
  context.devices.zipIdx.foldl
    (fun ptrs entry => ptrs.set entry.1.devId (some (allocated entry.2)))
    (List.replicate context.numPlatformDevices none)

/-- The allocation of a buffer on a device.  If the context contains the device more
than once it is the last one. -/
def allocation (context : Context) (allocated : ℕ → ℕ) (device : Device) : Option ℕ :=
  (context.devices.zipIdx.reverse.find? (fun entry => entry.1 == device)).map
    (fun entry => allocated entry.2)

/-- Every buffer argument of every launch on the device is passed as the pointer that
its allocation on the device has returned. -/
def PassesOwnInstances (context : Context) (device : Device) : Prop :=
  ∀ (kernel : Kernel) (captured : Captured) (launch : Launch),
    run context device kernel captured = some launch →
    ∀ mem index, Passed.buffer mem index ∈ launch.passed →
    ∀ allocated, (clCreateBuffer context allocated)[index]? =
      some (allocation context allocated device)

variable {context : Context} {device : Device} {allocated : ℕ → ℕ}

section Creation

theorem foldl_set_getElem?
    (entries : List (Device × ℕ)) (ptrs : List (Option ℕ))
    (hlt : ∀ entry ∈ entries, entry.1.devId < ptrs.length) (index : ℕ) :
    (entries.foldl
        (fun ptrs entry => ptrs.set entry.1.devId (some (allocated entry.2))) ptrs)[index]? =
      match entries.reverse.find? (fun entry => entry.1.devId == index) with
      | some entry => some (some (allocated entry.2))
      | none => ptrs[index]? := by
  have hlength : ∀ entries : List (Device × ℕ), (entries.foldl
      (fun ptrs entry => ptrs.set entry.1.devId (some (allocated entry.2))) ptrs).length =
        ptrs.length := by
    intro entries
    induction entries using List.reverseRecOn with
    | nil => rfl
    | append_singleton entries entry ih => simp [ih]
  induction entries using List.reverseRecOn with
  | nil => rfl
  | append_singleton entries entry ih =>
      have hentry : entry.1.devId < ptrs.length := hlt entry (by simp)
      rw [List.foldl_append, List.foldl_cons, List.foldl_nil, List.getElem?_set,
        List.reverse_append, List.reverse_singleton, List.singleton_append, List.find?_cons]
      by_cases hindex : entry.1.devId = index
      · have hlt' : index < ptrs.length := hindex ▸ hentry
        simp [hindex, hlength, hlt']
      · have hne : (entry.1.devId == index) = false := by simp [hindex]
        rw [if_neg hindex, hne]
        exact ih (fun other hother => hlt other (by simp [hother]))

theorem zipIdx_device_mem {entry : Device × ℕ}
    (hentry : entry ∈ context.devices.zipIdx) : entry.1 ∈ context.devices := by
  have hmem := List.mem_zipIdx_iff_getElem?.mp hentry
  exact List.mem_of_getElem? hmem

theorem clCreateBuffer_getElem? (index : ℕ) :
    (clCreateBuffer context allocated)[index]? =
      match context.devices.zipIdx.reverse.find? (fun entry => entry.1.devId == index) with
      | some entry => some (some (allocated entry.2))
      | none => (List.replicate context.numPlatformDevices none)[index]? := by
  apply foldl_set_getElem?
  intro entry hentry
  rw [List.length_replicate]
  exact context.devId_lt entry.1 (zipIdx_device_mem hentry)

theorem exists_allocation (hdevice : device ∈ context.devices) :
    ∃ position, context.devices[position]? = some device ∧
      context.devices.zipIdx.reverse.find? (fun entry => entry.1 == device) =
        some (device, position) := by
  obtain ⟨position, hposition⟩ := List.getElem?_of_mem hdevice
  have hsome : (context.devices.zipIdx.reverse.find?
      (fun entry => entry.1 == device)).isSome := by
    rw [List.find?_isSome]
    exact ⟨(device, position), by simp [List.mem_zipIdx_iff_getElem?, hposition], by simp⟩
  obtain ⟨entry, hentry⟩ := Option.isSome_iff_exists.mp hsome
  have heq : entry.1 = device := by simpa using List.find?_some hentry
  have hmem := List.mem_reverse.mp (List.mem_of_find?_eq_some hentry)
  have hget := List.mem_zipIdx_iff_getElem?.mp hmem
  refine ⟨entry.2, ?_, ?_⟩
  · rw [hget, heq]
  · rw [hentry, ← heq]

/-- The transfers to and from a device use the entry of its `dev_id`. -/
theorem clCreateBuffer_devId (hdevice : device ∈ context.devices) :
    (clCreateBuffer context allocated)[device.devId]? =
      some (allocation context allocated device) := by
  have hcongr : context.devices.zipIdx.reverse.find?
        (fun entry => entry.1.devId == device.devId) =
      context.devices.zipIdx.reverse.find? (fun entry => entry.1 == device) := by
    apply List.find?_congr
    intro entry hentry
    have hmem := zipIdx_device_mem (List.mem_reverse.mp hentry)
    rw [Bool.eq_iff_iff, beq_iff_eq, beq_iff_eq]
    constructor
    · exact context.devId_injective entry.1 hmem device hdevice
    · exact congrArg Device.devId
  obtain ⟨position, _, hfind⟩ := exists_allocation hdevice
  rw [clCreateBuffer_getElem?, allocation, hcongr, hfind]
  rfl

/-- No other entry holds the pointer of the device for every buffer. -/
theorem devId_of_clCreateBuffer
    (hdevice : device ∈ context.devices) {index : ℕ}
    (hown : ∀ allocated, (clCreateBuffer context allocated)[index]? =
      some (allocation context allocated device)) :
    index = device.devId := by
  obtain ⟨position, hposition, hfind⟩ := exists_allocation hdevice
  have hid := hown id
  rw [clCreateBuffer_getElem?, allocation, hfind] at hid
  cases hother : context.devices.zipIdx.reverse.find?
      (fun entry => entry.1.devId == index) with
  | none =>
      rw [hother] at hid
      simp [List.getElem?_replicate] at hid
  | some entry =>
      rw [hother] at hid
      have hpos : entry.2 = position := by simpa using hid
      have hmem := List.mem_reverse.mp (List.mem_of_find?_eq_some hother)
      have hget := List.mem_zipIdx_iff_getElem?.mp hmem
      rw [hpos, hposition, Option.some.injEq] at hget
      have hindex : entry.1.devId = index := by simpa using List.find?_some hother
      rw [← hindex, hget]

end Creation

section Reading

/-- The index of `device_ptrs` that the driver of a device reads. -/
def bufferIndex (context : Context) (device : Device) : Option ℕ :=
  match device.driver with
  | .basic => findData context device
  | .pthread => findData context device
  | .cellspu => some 0
  | .ttasim => some device.devId
  | .hsa => (findGpu context).map Device.devId

theorem exists_of_mem_mapM {pass : LaunchArg → Option Passed} {passed : Passed}
    (args : List LaunchArg) (result : List Passed)
    (hresult : args.mapM pass = some result) (hpassed : passed ∈ result) :
    ∃ arg ∈ args, pass arg = some passed := by
  induction args generalizing result with
  | nil =>
      cases hresult
      cases hpassed
  | cons arg args ih =>
      rw [List.mapM_cons] at hresult
      obtain ⟨first, hfirst, hresult⟩ := Option.bind_eq_some_iff.mp hresult
      obtain ⟨rest, hrest, hresult⟩ := Option.bind_eq_some_iff.mp hresult
      cases hresult
      obtain rfl | hpassed := List.mem_cons.mp hpassed
      · exact ⟨arg, List.mem_cons_self, hfirst⟩
      · obtain ⟨other, hother, hpass⟩ := ih rest hrest hpassed
        exact ⟨other, List.mem_cons_of_mem _ hother, hpass⟩

theorem passBuffer_index {index other : ℕ} {value : Option (List UInt8)} {mem : List UInt8}
    (hpassed : passBuffer index value = .buffer mem other) : other = index := by
  cases value with
  | none => cases hpassed
  | some mem =>
      cases hpassed
      rfl

theorem copyValue_ne_buffer {arg : Argument} {mem : List UInt8} {index : ℕ} :
    copyValue arg ≠ some (.buffer mem index) := by
  unfold copyValue
  split
  · simp
  · split <;> simp

theorem passBasic_index {index other : ℕ} {arg : LaunchArg} {mem : List UInt8}
    (hpassed : passBasic index arg = some (.buffer mem other)) : other = index := by
  unfold passBasic at hpassed
  split at hpassed
  · cases hpassed
  · split at hpassed
    · exact passBuffer_index (Option.some.inj hpassed)
    · split at hpassed
      · cases hvalue : arg.captured.value <;> simp [hvalue] at hpassed
      · split at hpassed <;> cases hpassed

theorem passTtasim_index {index other : ℕ} {arg : LaunchArg} {mem : List UInt8}
    (hpassed : passTtasim index arg = some (.buffer mem other)) : other = index := by
  unfold passTtasim at hpassed
  split at hpassed
  · cases hpassed
  · split at hpassed
    · exact passBuffer_index (Option.some.inj hpassed)
    · exact absurd hpassed copyValue_ne_buffer

theorem passCellspu_index {other : ℕ} {arg : LaunchArg} {mem : List UInt8}
    (hpassed : passCellspu arg = some (.buffer mem other)) : other = 0 := by
  unfold passCellspu at hpassed
  split at hpassed
  · cases hpassed
  · split at hpassed
    · exact passBuffer_index (Option.some.inj hpassed)
    · split at hpassed
      · cases hpassed
      · split at hpassed <;> cases hpassed

theorem passHsa_index {index other : ℕ} {arg : LaunchArg} {mem : List UInt8}
    (hpassed : passHsa index arg = some (.buffer mem other)) : other = index := by
  unfold passHsa at hpassed
  split at hpassed
  · exact passBuffer_index (Option.some.inj hpassed)
  · split at hpassed
    · cases hvalue : arg.captured.value <;> simp [hvalue] at hpassed
    · split at hpassed
      · cases hpassed
      · exact absurd hpassed copyValue_ne_buffer

theorem passHsaArgs_index {index other : ℕ} {mem : List UInt8}
    (args : List LaunchArg) (pointer : ℕ) (result : List Passed × ℕ)
    (hresult : passHsaArgs index pointer args = some result)
    (hpassed : .buffer mem other ∈ result.1) : other = index := by
  induction args generalizing pointer result with
  | nil =>
      cases hresult
      cases hpassed
  | cons arg args ih =>
      unfold passHsaArgs at hresult
      split at hresult
      · obtain ⟨rest, hrest, hresult⟩ := Option.bind_eq_some_iff.mp hresult
        cases hresult
        obtain heq | hpassed := List.mem_cons.mp hpassed
        · cases heq
        · exact ih _ rest hrest hpassed
      · obtain ⟨first, hfirst, hresult⟩ := Option.bind_eq_some_iff.mp hresult
        obtain ⟨rest, hrest, hresult⟩ := Option.bind_eq_some_iff.mp hresult
        cases hresult
        obtain rfl | hpassed := List.mem_cons.mp hpassed
        · exact passHsa_index hfirst
        · exact ih _ rest hrest hpassed

theorem passVegaArgs_index {index other : ℕ} {mem : List UInt8}
    (args : List LaunchArg) (pointer : ℕ) (result : List Passed × ℕ)
    (hresult : passVegaArgs index pointer args = some result)
    (hpassed : .buffer mem other ∈ result.1) : other = index := by
  induction args generalizing pointer result with
  | nil =>
      cases hresult
      cases hpassed
  | cons arg args ih =>
      unfold passVegaArgs at hresult
      split at hresult
      · split at hresult
        · obtain ⟨rest, hrest, hresult⟩ := Option.bind_eq_some_iff.mp hresult
          cases hresult
          obtain heq | hpassed := List.mem_cons.mp hpassed
          · cases heq
          · exact ih _ rest hrest hpassed
        · obtain ⟨rest, hrest, hresult⟩ := Option.bind_eq_some_iff.mp hresult
          cases hresult
          obtain heq | hpassed := List.mem_cons.mp hpassed
          · cases heq
            rfl
          · exact ih _ rest hrest hpassed
      · obtain ⟨first, hfirst, hresult⟩ := Option.bind_eq_some_iff.mp hresult
        obtain ⟨rest, hrest, hresult⟩ := Option.bind_eq_some_iff.mp hresult
        cases hresult
        obtain rfl | hpassed := List.mem_cons.mp hpassed
        · unfold passVegaValue at hfirst
          split at hfirst
          · cases hfirst
          · exact absurd hfirst copyValue_ne_buffer
        · exact ih _ rest hrest hpassed

theorem passVega_index {index other pointer : ℕ} {mem : List UInt8}
    {args : List LaunchArg} {result : List Passed × ℕ}
    (hresult : passVega index pointer args = some result)
    (hpassed : .buffer mem other ∈ result.1) : other = index := by
  cases args with
  | nil =>
      cases hresult
      cases hpassed
  | cons arg args =>
      obtain ⟨rest, hrest, hresult⟩ := Option.bind_eq_some_iff.mp hresult
      cases hresult
      obtain heq | hpassed := List.mem_cons.mp hpassed
      · cases heq
      · exact passVegaArgs_index args pointer rest hrest hpassed

theorem buffer_notMem_passLocals {locals : List Argument} {mem : List UInt8} {index : ℕ} :
    .buffer mem index ∉ passLocals locals := by
  simp [passLocals]

/-- A driver that passes the arguments one by one, and the automatic local variables
after them. -/
theorem mapM_append_index {pass : LaunchArg → Option Passed} {index other : ℕ}
    {mem : List UInt8} {args : List LaunchArg} {locals : List Argument} {launch : Launch}
    (hpass : ∀ arg, pass arg = some (.buffer mem other) → other = index)
    (hlaunch : (do
      let passed ← args.mapM pass
      return { passed := passed ++ passLocals locals, groupSegmentSize := 0 }) = some launch)
    (hpassed : .buffer mem other ∈ launch.passed) : other = index := by
  obtain ⟨passed, hmapM, hlaunch⟩ := Option.bind_eq_some_iff.mp hlaunch
  cases hlaunch
  obtain hpassed | hpassed := List.mem_append.mp hpassed
  · obtain ⟨arg, _, harg⟩ := exists_of_mem_mapM args passed hmapM hpassed
    exact hpass arg harg
  · exact absurd hpassed buffer_notMem_passLocals

theorem run_bufferIndex {kernel : Kernel} {captured : Captured} {launch : Launch}
    {mem : List UInt8} {index : ℕ}
    (hrun : run context device kernel captured = some launch)
    (hpassed : .buffer mem index ∈ launch.passed) :
    bufferIndex context device = some index := by
  have hbasic : ∀ found, findData context device = some found →
      basicRun found kernel captured = some launch → findData context device = some index := by
    intro found hfound hlaunch
    rw [mapM_append_index (fun _ => passBasic_index) hlaunch hpassed]
    exact hfound
  unfold run at hrun
  unfold bufferIndex
  cases hdriver : device.driver with
  | basic =>
      rw [hdriver] at hrun
      obtain ⟨found, hfound, hlaunch⟩ := Option.bind_eq_some_iff.mp hrun
      exact hbasic found hfound hlaunch
  | pthread =>
      rw [hdriver] at hrun
      obtain ⟨found, hfound, hlaunch⟩ := Option.bind_eq_some_iff.mp hrun
      exact hbasic found hfound hlaunch
  | cellspu =>
      rw [hdriver] at hrun
      rw [mapM_append_index (fun _ => passCellspu_index) hrun hpassed]
  | ttasim =>
      rw [hdriver] at hrun
      rw [mapM_append_index (fun _ => passTtasim_index) hrun hpassed]
  | hsa =>
      rw [hdriver] at hrun
      obtain ⟨gpu, hgpu, hlaunch⟩ := Option.bind_eq_some_iff.mp hrun
      obtain ⟨passed, hresult, hlaunch⟩ := Option.bind_eq_some_iff.mp hlaunch
      cases hlaunch
      have hindex : index = gpu.devId := by
        unfold hsaPassed at hresult
        split at hresult
        · exact passVega_index hresult hpassed
        · exact passHsaArgs_index _ _ passed hresult hpassed
      rw [hindex, hgpu]
      rfl

/-- A kernel whose only argument is a buffer. -/
def bufferKernel (mem : List UInt8) : Kernel where
  name := "kernel"
  groupSegmentSize := 0
  hasSource := true
  args := [(⟨true, false, false, false, false⟩, ⟨mem.length, some mem⟩)]
  locals := []

theorem run_bufferKernel {index : ℕ} (mem : List UInt8)
    (hindex : bufferIndex context device = some index) :
    run context device (bufferKernel mem) (bufferKernel mem).capture =
      some { passed := [.buffer mem index], groupSegmentSize := 0 } := by
  unfold bufferIndex at hindex
  unfold run
  cases hdriver : device.driver with
  | basic =>
      simp only [hdriver] at hindex
      simp only [hindex, Option.bind_some]
      rfl
  | pthread =>
      simp only [hdriver] at hindex
      simp only [hindex, Option.bind_some]
      rfl
  | cellspu =>
      simp only [hdriver, Option.some.injEq] at hindex
      subst hindex
      rfl
  | ttasim =>
      simp only [hdriver, Option.some.injEq] at hindex
      subst hindex
      rfl
  | hsa =>
      simp only [hdriver] at hindex
      obtain ⟨gpu, hgpu, rfl⟩ := Option.map_eq_some_iff.mp hindex
      simp only [hgpu, Option.bind_some]
      rfl

end Reading

section Instances

/-- The driver reads the entry of the device itself: for the basic and the pthread
driver, the device is at the position of its `dev_id` in the context, for the HSA
driver it is the first GPU of the context. -/
def ReadsOwnEntry (context : Context) (device : Device) : Prop :=
  match device.driver with
  | .basic => context.devices.idxOf device = device.devId
  | .pthread => context.devices.idxOf device = device.devId
  | .cellspu => device.devId = 0
  | .ttasim => True
  | .hsa => context.devices.find? (fun other => other.driver.isGpu) = some device

theorem findIdx?_data (devices : List Device) (hdevice : device ∈ devices)
    (hdata : ∀ other ∈ devices, other.data = device.data → other = device) :
    devices.findIdx? (fun other => other.data == device.data) =
      some (devices.idxOf device) := by
  induction devices with
  | nil => cases hdevice
  | cons first devices ih =>
      by_cases hfirst : first = device
      · subst hfirst
        simp [List.findIdx?_cons]
      · have hne : first.data ≠ device.data :=
          fun heq => hfirst (hdata first List.mem_cons_self heq)
        have hmem : device ∈ devices := by
          obtain heq | hmem := List.mem_cons.mp hdevice
          · exact absurd heq.symm hfirst
          · exact hmem
        have hrest := ih hmem (fun other hother => hdata other (List.mem_cons_of_mem _ hother))
        rw [List.findIdx?_cons, List.idxOf_cons_ne _ hfirst, hrest]
        simp [hne]

theorem findData_eq (hdevice : device ∈ context.devices) :
    findData context device = some (context.devices.idxOf device) := by
  apply findIdx?_data context.devices hdevice
  intro other hother
  exact context.data_injective other hother device hdevice

theorem findGpu_devId (hdevice : device ∈ context.devices) {gpu : Device}
    (hgpu : findGpu context = some gpu) :
    gpu.devId = device.devId ↔
      context.devices.find? (fun other => other.driver.isGpu) = some device := by
  have hmem : gpu ∈ context.devices := List.mem_of_find?_eq_some hgpu
  rw [findGpu] at hgpu
  rw [hgpu, Option.some.injEq]
  constructor
  · exact context.devId_injective gpu hmem device hdevice
  · exact congrArg Device.devId

theorem bufferIndex_iff (hdevice : device ∈ context.devices) :
    (∀ index, bufferIndex context device = some index → index = device.devId) ↔
      ReadsOwnEntry context device := by
  unfold bufferIndex ReadsOwnEntry
  cases hdriver : device.driver with
  | basic => simp [findData_eq hdevice]
  | pthread => simp [findData_eq hdevice]
  | cellspu => simp [eq_comm]
  | ttasim => simp
  | hsa =>
      have hsome : (findGpu context).isSome := by
        rw [findGpu, List.find?_isSome]
        exact ⟨device, hdevice, by simp [hdriver, Driver.isGpu]⟩
      obtain ⟨gpu, hgpu⟩ := Option.isSome_iff_exists.mp hsome
      simp only [hgpu, Option.map_some, Option.some.injEq, forall_eq']
      exact findGpu_devId hdevice hgpu

theorem passesOwnInstances_iff_bufferIndex (hdevice : device ∈ context.devices) :
    PassesOwnInstances context device ↔
      ∀ index, bufferIndex context device = some index → index = device.devId := by
  constructor
  · intro hown index hindex
    apply devId_of_clCreateBuffer hdevice
    intro allocated
    exact hown _ _ _ (run_bufferKernel [1] hindex) [1] index (by simp) allocated
  · intro hindex kernel captured launch hrun mem index hpassed allocated
    rw [hindex index (run_bufferIndex hrun hpassed)]
    exact clCreateBuffer_devId hdevice

theorem passesOwnInstances_iff (hdevice : device ∈ context.devices) :
    PassesOwnInstances context device ↔ ReadsOwnEntry context device := by
  rw [passesOwnInstances_iff_bufferIndex hdevice]
  exact bufferIndex_iff hdevice

/-- The devices of the platform, in its order. -/
def platformContext : Context where
  numPlatformDevices := 2
  devices := [⟨0, 0, .pthread⟩, ⟨1, 1, .hsa⟩]
  devId_lt := by decide
  devId_injective := by decide
  data_injective := by decide

theorem platformContext_passesOwnInstances :
    ⟨0, 0, .pthread⟩ ∈ platformContext.devices ∧
      PassesOwnInstances platformContext ⟨0, 0, .pthread⟩ := by
  have hdevice : ⟨0, 0, .pthread⟩ ∈ platformContext.devices := by decide
  refine ⟨hdevice, (passesOwnInstances_iff hdevice).mpr ?_⟩
  exact (by decide : platformContext.devices.idxOf ⟨0, 0, .pthread⟩ = 0)

/-- The same devices in the other order. -/
def reorderedContext : Context where
  numPlatformDevices := 2
  devices := [⟨1, 1, .hsa⟩, ⟨0, 0, .pthread⟩]
  devId_lt := by decide
  devId_injective := by decide
  data_injective := by decide

theorem reorderedContext_not_passesOwnInstances :
    ⟨0, 0, .pthread⟩ ∈ reorderedContext.devices ∧
      ¬ PassesOwnInstances reorderedContext ⟨0, 0, .pthread⟩ := by
  refine ⟨by decide, ?_⟩
  intro hown
  have hrun : run reorderedContext ⟨0, 0, .pthread⟩ (bufferKernel [7])
      (bufferKernel [7]).capture = some ⟨[.buffer [7] 1], 0⟩ := by
    decide +kernel
  have hentry := hown _ _ _ hrun [7] 1 (by simp) id
  exact absurd hentry (by decide)

end Instances

end Pocl.KernelArguments
