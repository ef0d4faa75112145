import Pocl.KernelArguments
import Mathlib.Algebra.Order.Group.Multiset
import Mathlib.Tactic

/-!
# The allocations of a work-group thread

`workgroup_thread` fills the argument array in one loop, runs its work-groups, and
undoes the array in another loop.  Both loops classify an argument by its kinds; the
second one also reads the pointer behind the array entry.

Which addresses the device hands out comes from outside.  `none` stands for an access
through a null pointer, for the assertion in `pocl_pthread_free`, or for an address at
which several chunks start.  The work-group
function leaves the argument array and the allocations as they are, and `malloc`
succeeds on the host.
-/

namespace Pocl.PthreadWorkgroups

open KernelArguments

/-- The address for a request of a size while the given ones are in use. -/
abbrev DeviceAllocator := Multiset ℕ → ℕ → Option ℕ

structure MemFlags where
  copyHostPtr : Bool
  useHostPtr : Bool

def MemFlags.none : MemFlags := ⟨false, false⟩

def allocateAligned (allocator : DeviceAllocator) (device : Multiset ℕ) (size : ℕ) :
    Multiset ℕ × Option ℕ :=
  match allocator device size with
  | some address => (address ::ₘ device, some address)
  | none => (device, none)

def poclPthreadMalloc (allocator : DeviceAllocator) (device : Multiset ℕ)
    (flags : MemFlags) (size : ℕ) (hostPtr : Option ℕ) : Multiset ℕ × Option ℕ :=
  if flags.copyHostPtr then
    allocateAligned allocator device size
  else if flags.useHostPtr = true ∧ hostPtr ≠ none then
    (device, hostPtr)
  else
    allocateAligned allocator device size

/-- No region has a chunk for an address that is not in use.  Of several chunks at one
address, as those of size zero, `free_buffer` takes the first one of the region; which
one that is the addresses do not say. -/
def poclPthreadFree (device : Multiset ℕ) (flags : MemFlags) (ptr : Option ℕ) :
    Option (Multiset ℕ) :=
  if flags.useHostPtr then
    some device
  else
    match ptr with
    | some address =>
        if device.count address = 1 then some (device.erase address) else none
    | none => none

/-- The entries of the argument array: a block of the thread, the entry of the device
in the `device_ptrs` of the memory object that the value holds, or the value. -/
inductive HostPointer
  | block (id : ℕ)
  | deviceEntry (value : ℕ)
  | value (address : Option ℕ)
  deriving DecidableEq

/-- The device addresses in use, the contents of the blocks of the thread, and the
pointers passed to `free`. -/
structure ThreadMemory where
  device : Multiset ℕ
  cells : ℕ → Option ℕ
  nextBlock : ℕ
  freed : List HostPointer

/-- An argument of the command, with the address of its value. -/
structure ThreadArg where
  kinds : ArgKinds
  size : ℕ
  value : Option ℕ

/-- An automatic local variable.  It is allocated and freed as a local argument. -/
def ThreadArg.automatic (size : ℕ) : ThreadArg where
  kinds := ⟨false, true, false, false, false⟩
  size := size
  value := none

namespace ThreadMemory

def start (device : Multiset ℕ) : ThreadMemory where
  device := device
  cells := fun _ => none
  nextBlock := 0
  freed := []

/-- A new block of the size of a pointer, with the pointer stored in it. -/
def storePointer (memory : ThreadMemory) (pointer : Option ℕ) :
    ThreadMemory × HostPointer :=
  ({ memory with
      cells := Function.update memory.cells memory.nextBlock pointer
      nextBlock := memory.nextBlock + 1 },
    .block memory.nextBlock)

/-- A device allocation whose address is stored in a new block. -/
def storeAllocation (allocator : DeviceAllocator) (memory : ThreadMemory) (size : ℕ) :
    ThreadMemory × HostPointer :=
  let (device, pointer) :=
    poclPthreadMalloc allocator memory.device .none size none
  { memory with device := device }.storePointer pointer

def free (memory : ThreadMemory) (pointer : HostPointer) : ThreadMemory :=
  { memory with freed := memory.freed ++ [pointer] }

/-- The pointer that an entry of the argument array points to. -/
def load (devicePtr : ℕ → Option ℕ) (memory : ThreadMemory) :
    HostPointer → Option ℕ
  | .block id => memory.cells id
  | .deviceEntry value => devicePtr value
  | .value address => address

end ThreadMemory

/-- The sizes of `dev_image2d_t` and `dev_sampler_t`. -/
def imageSize : ℕ := 32

def samplerSize : ℕ := 4

/-- An allocation that `pocl_pthread_write` fills. -/
def writtenAllocation (allocator : DeviceAllocator) (memory : ThreadMemory) (size : ℕ) :
    Option (ThreadMemory × HostPointer) :=
  let (written, pointer) := memory.storeAllocation allocator size
  if written.cells memory.nextBlock = none then none else some (written, pointer)

def setUpArgument (allocator : DeviceAllocator) (memory : ThreadMemory)
    (arg : ThreadArg) : Option (ThreadMemory × HostPointer) :=
  if arg.kinds.isLocal then
    some (memory.storeAllocation allocator arg.size)
  else if arg.kinds.isPointer then
    match arg.value with
    | none => some (memory.storePointer none)
    | some value => some (memory, .deviceEntry value)
  else if arg.kinds.isImage then
    match arg.value with
    | none => none
    | some _ => writtenAllocation allocator memory imageSize
  else if arg.kinds.isSampler then
    writtenAllocation allocator memory samplerSize
  else
    some (memory, .value arg.value)

def setUpArguments (allocator : DeviceAllocator) :
    ThreadMemory → List ThreadArg → Option (ThreadMemory × List HostPointer)
  | memory, [] => some (memory, [])
  | memory, arg :: args => do
      let (memory, pointer) ← setUpArgument allocator memory arg
      let (memory, pointers) ← setUpArguments allocator memory args
      return (memory, pointer :: pointers)

def cleanUpArgument (devicePtr : ℕ → Option ℕ) (memory : ThreadMemory)
    (entry : ThreadArg × HostPointer) : Option ThreadMemory :=
  let (arg, pointer) := entry
  if arg.kinds.isLocal then do
    let device ← poclPthreadFree memory.device .none (memory.load devicePtr pointer)
    return { memory with device := device }.free pointer
  else if arg.kinds.isSampler = true ∨ arg.kinds.isImage = true ∨
      (arg.kinds.isPointer = true ∧ memory.load devicePtr pointer = none) then
    some (memory.free pointer)
  else
    some memory

/-- The automatic local variables come after the arguments in both loops.  The value
`devicePtr value` is the entry of the device in the memory object that the value at
this address holds. -/
def workgroupThread (allocator : DeviceAllocator) (devicePtr : ℕ → Option ℕ)
    (device : Multiset ℕ) (args : List ThreadArg) (locals : List ℕ) :
    Option ThreadMemory := do
  let entries := args ++ locals.map ThreadArg.automatic
  let (memory, pointers) ← setUpArguments allocator (.start device) entries
  (entries.zip pointers).foldlM (cleanUpArgument devicePtr) memory

def HostPointer.blockId : HostPointer → Option ℕ
  | .block id => some id
  | _ => none

/-- The device allocations are those before the thread, every block of the thread is
freed once, and nothing else is. -/
structure AllocationNeutral (device : Multiset ℕ) (after : ThreadMemory) : Prop where
  device_eq : after.device = device
  freed_once : ∀ id < after.nextBlock, after.freed.count (.block id) = 1
  own_blocks : ∀ pointer ∈ after.freed,
    ∃ id < after.nextBlock, pointer = .block id

/-- An argument that both loops treat alike: a local one, a null pointer, a pointer to
a buffer with an address on the device that is no image or sampler, or a plain value. -/
def ThreadArg.Balanced (devicePtr : ℕ → Option ℕ) (arg : ThreadArg) : Prop :=
  arg.kinds.isLocal = true ∨
    (arg.kinds.isPointer = true ∧ arg.value = none) ∨
    (arg.kinds.isImage = false ∧ arg.kinds.isSampler = false ∧
      (arg.kinds.isPointer = true → ∀ value, arg.value = some value →
        devicePtr value ≠ none))

/-- An image that is not local and no pointer is read in the first loop. -/
def ThreadArg.Readable (arg : ThreadArg) : Prop :=
  arg.kinds.isLocal = false → arg.kinds.isPointer = false →
    arg.kinds.isImage = true → arg.value ≠ none

section SetUp

variable {allocator : DeviceAllocator} {memory memory' : ThreadMemory}
  {arg : ThreadArg} {pointer : HostPointer}

def addresses : Option ℕ → Multiset ℕ
  | some address => {address}
  | none => 0

/-- The device address in a block. -/
def held (cells : ℕ → Option ℕ) : HostPointer → Multiset ℕ
  | .block id => addresses (cells id)
  | _ => 0

/-- What the first loop leaves for an argument. -/
inductive SetUpAs (cells : ℕ → Option ℕ) (arg : ThreadArg) : HostPointer → Prop
  | localBlock (id : ℕ) (hlocal : arg.kinds.isLocal = true) :
      SetUpAs cells arg (.block id)
  | nullBlock (id : ℕ) (hlocal : arg.kinds.isLocal = false)
      (hpointer : arg.kinds.isPointer = true) (hvalue : arg.value = none)
      (hcell : cells id = none) :
      SetUpAs cells arg (.block id)
  | entry (value : ℕ) (hlocal : arg.kinds.isLocal = false)
      (hpointer : arg.kinds.isPointer = true) (hvalue : arg.value = some value) :
      SetUpAs cells arg (.deviceEntry value)
  | written (id address : ℕ) (hlocal : arg.kinds.isLocal = false)
      (hpointer : arg.kinds.isPointer = false)
      (hkind : arg.kinds.isSampler = true ∨ arg.kinds.isImage = true)
      (hcell : cells id = some address) :
      SetUpAs cells arg (.block id)
  | plain (hlocal : arg.kinds.isLocal = false)
      (hpointer : arg.kinds.isPointer = false) (himage : arg.kinds.isImage = false)
      (hsampler : arg.kinds.isSampler = false) :
      SetUpAs cells arg (.value arg.value)

/-- The blocks and allocations that some entries of the array own. -/
structure Stored (memory memory' : ThreadMemory) (pointers : List HostPointer) :
    Prop where
  device_eq : memory'.device =
    memory.device + (pointers.map (held memory'.cells)).sum
  freed_eq : memory'.freed = memory.freed
  cells_eq : ∀ id < memory.nextBlock, memory'.cells id = memory.cells id
  nextBlock_le : memory.nextBlock ≤ memory'.nextBlock
  blocks_eq : pointers.filterMap HostPointer.blockId =
    List.range' memory.nextBlock (memory'.nextBlock - memory.nextBlock)

theorem Stored.refl (hpointer : pointer.blockId = none) :
    Stored memory memory [pointer] := by
  have hheld : held memory.cells pointer = 0 := by
    cases pointer with
    | block id => cases hpointer
    | deviceEntry value => rfl
    | value address => rfl
  refine ⟨?_, rfl, fun _ _ => rfl, le_refl _, ?_⟩
  · simp [hheld]
  · simp [hpointer]

theorem storePointer_stored {device : Multiset ℕ} (memory : ThreadMemory)
    (content : Option ℕ) (hdevice : device = memory.device + addresses content) :
    Stored memory ({ memory with device := device }.storePointer content).1
        [.block memory.nextBlock] ∧
      ({ memory with device := device }.storePointer content).1.cells
        memory.nextBlock = content := by
  have hcell : ({ memory with device := device }.storePointer content).1.cells
      memory.nextBlock = content :=
    Function.update_self _ _ _
  refine ⟨⟨?_, rfl, ?_, ?_, ?_⟩, hcell⟩
  · simp only [List.map_cons, List.map_nil, List.sum_singleton, held, hcell]
    exact hdevice
  · intro id hid
    exact Function.update_of_ne (Nat.ne_of_lt hid) _ _
  · exact Nat.le_succ _
  · simp [ThreadMemory.storePointer, HostPointer.blockId]

theorem poclPthreadMalloc_none (device : Multiset ℕ) (size : ℕ) :
    (poclPthreadMalloc allocator device .none size none).1 =
      device + addresses (poclPthreadMalloc allocator device .none size none).2 := by
  unfold poclPthreadMalloc allocateAligned
  simp only [MemFlags.none, Bool.false_eq_true, if_false, false_and]
  cases allocator device size with
  | none => simp [addresses]
  | some address => simp [addresses, ← Multiset.singleton_add, add_comm]

theorem storeAllocation_stored (allocator : DeviceAllocator) (memory : ThreadMemory)
    (size : ℕ) :
    Stored memory (memory.storeAllocation allocator size).1
        [(memory.storeAllocation allocator size).2] ∧
      (memory.storeAllocation allocator size).2 = .block memory.nextBlock :=
  ⟨(storePointer_stored memory _ (poclPthreadMalloc_none memory.device size)).1, rfl⟩

theorem writtenAllocation_stored {size : ℕ}
    (hwritten : writtenAllocation allocator memory size = some (memory', pointer)) :
    Stored memory memory' [pointer] ∧ pointer = .block memory.nextBlock ∧
      ∃ address, memory'.cells memory.nextBlock = some address := by
  obtain ⟨hstored, hblock⟩ := storeAllocation_stored allocator memory size
  unfold writtenAllocation at hwritten
  split at hwritten
  next stored block heq =>
    rw [heq] at hstored hblock
    split at hwritten
    next => cases hwritten
    next hcell =>
      cases hwritten
      exact ⟨hstored, hblock, Option.ne_none_iff_exists'.mp hcell⟩

theorem setUpArgument_stored
    (hsetUp : setUpArgument allocator memory arg = some (memory', pointer)) :
    Stored memory memory' [pointer] ∧ SetUpAs memory'.cells arg pointer := by
  unfold setUpArgument at hsetUp
  split at hsetUp
  next hlocal =>
    obtain ⟨hstored, hblock⟩ :=
      storeAllocation_stored allocator memory arg.size
    cases hsetUp
    exact ⟨hstored, hblock ▸ .localBlock _ hlocal⟩
  next hlocal =>
    rw [Bool.not_eq_true] at hlocal
    split at hsetUp
    next hpointer =>
      split at hsetUp
      next hvalue =>
        cases hsetUp
        obtain ⟨hstored, hcell⟩ :=
          storePointer_stored memory none (add_zero _).symm
        exact ⟨hstored, .nullBlock _ hlocal hpointer hvalue hcell⟩
      next value hvalue =>
        cases hsetUp
        exact ⟨.refl rfl, .entry value hlocal hpointer hvalue⟩
    next hpointer =>
      rw [Bool.not_eq_true] at hpointer
      split at hsetUp
      next himage =>
        split at hsetUp
        next => cases hsetUp
        next =>
          obtain ⟨hstored, rfl, address, hcell⟩ := writtenAllocation_stored hsetUp
          exact ⟨hstored, .written _ address hlocal hpointer (.inr himage) hcell⟩
      next himage =>
        split at hsetUp
        next hsampler =>
          obtain ⟨hstored, rfl, address, hcell⟩ := writtenAllocation_stored hsetUp
          exact ⟨hstored, .written _ address hlocal hpointer (.inl hsampler) hcell⟩
        next hsampler =>
          cases hsetUp
          exact ⟨.refl rfl, .plain hlocal hpointer (by simpa using himage)
            (by simpa using hsampler)⟩

theorem SetUpAs.of_cells_eq {cells cells' : ℕ → Option ℕ}
    (hsetUp : SetUpAs cells arg pointer)
    (hcells : ∀ id, pointer.blockId = some id → cells' id = cells id) :
    SetUpAs cells' arg pointer := by
  cases hsetUp with
  | localBlock id hlocal => exact .localBlock id hlocal
  | nullBlock id hlocal hpointer hvalue hcell =>
      exact .nullBlock id hlocal hpointer hvalue ((hcells id rfl).trans hcell)
  | entry value hlocal hpointer hvalue => exact .entry value hlocal hpointer hvalue
  | written id address hlocal hpointer hkind hcell =>
      exact .written id address hlocal hpointer hkind ((hcells id rfl).trans hcell)
  | plain hlocal hpointer himage hsampler =>
      exact .plain hlocal hpointer himage hsampler

theorem held_of_cells_eq {cells cells' : ℕ → Option ℕ}
    (hcells : ∀ id, pointer.blockId = some id → cells' id = cells id) :
    held cells' pointer = held cells pointer := by
  cases pointer with
  | block id => exact congrArg addresses (hcells id rfl)
  | deviceEntry value => rfl
  | value address => rfl

theorem Stored.blockId_lt (hstored : Stored memory memory' [pointer]) {id : ℕ}
    (hid : pointer.blockId = some id) : id < memory'.nextBlock := by
  have hmem : id ∈ [pointer].filterMap HostPointer.blockId := by simp [hid]
  rw [hstored.blocks_eq, List.mem_range'_1] at hmem
  have hle := hstored.nextBlock_le
  omega

theorem Stored.cons {memory'' : ThreadMemory} {pointers : List HostPointer}
    (hfirst : Stored memory memory' [pointer])
    (hrest : Stored memory' memory'' pointers) :
    Stored memory memory'' (pointer :: pointers) := by
  have hheld : held memory''.cells pointer = held memory'.cells pointer :=
    held_of_cells_eq fun id hid => hrest.cells_eq id (hfirst.blockId_lt hid)
  refine ⟨?_, hrest.freed_eq.trans hfirst.freed_eq, ?_, ?_, ?_⟩
  · rw [hrest.device_eq, hfirst.device_eq, List.map_singleton, List.sum_singleton,
      List.map_cons, List.sum_cons, hheld, add_assoc]
  · intro id hid
    rw [hrest.cells_eq id (hid.trans_le hfirst.nextBlock_le), hfirst.cells_eq id hid]
  · exact hfirst.nextBlock_le.trans hrest.nextBlock_le
  · have hle := hfirst.nextBlock_le
    have hle' := hrest.nextBlock_le
    have hsplit : memory''.nextBlock - memory.nextBlock =
        (memory'.nextBlock - memory.nextBlock) +
          (memory''.nextBlock - memory'.nextBlock) := by
      omega
    rw [← List.singleton_append, List.filterMap_append, hfirst.blocks_eq,
      hrest.blocks_eq, hsplit, ← List.range'_append_1,
      Nat.add_sub_cancel' hfirst.nextBlock_le]

theorem setUpArguments_stored {args : List ThreadArg} {pointers : List HostPointer}
    (hsetUp : setUpArguments allocator memory args = some (memory', pointers)) :
    Stored memory memory' pointers ∧
      List.Forall₂ (SetUpAs memory'.cells) args pointers := by
  induction args generalizing memory pointers with
  | nil =>
      cases hsetUp
      exact ⟨⟨by simp, rfl, fun _ _ => rfl, le_refl _, by simp⟩, .nil⟩
  | cons arg args ih =>
      unfold setUpArguments at hsetUp
      cases hfirst : setUpArgument allocator memory arg with
      | none => simp [hfirst] at hsetUp
      | some first =>
          obtain ⟨memory₁, pointer⟩ := first
          cases hrest : setUpArguments allocator memory₁ args with
          | none => simp [hfirst, hrest] at hsetUp
          | some rest =>
              obtain ⟨memory₂, rest⟩ := rest
              simp only [hfirst, hrest, Option.bind_eq_bind, Option.bind_some] at hsetUp
              cases hsetUp
              obtain ⟨hstored, hsetUpAs⟩ := setUpArgument_stored hfirst
              obtain ⟨hstoredRest, hrestAs⟩ := ih hrest
              refine ⟨hstored.cons hstoredRest, .cons ?_ hrestAs⟩
              exact hsetUpAs.of_cells_eq fun id hid =>
                hstoredRest.cells_eq id (hstored.blockId_lt hid)

end SetUp

section CleanUp

variable {devicePtr : ℕ → Option ℕ} {memory memory' : ThreadMemory}
  {entry : ThreadArg × HostPointer} {entries : List (ThreadArg × HostPointer)}

/-- What the second loop gives back to the device for an entry. -/
def released (devicePtr : ℕ → Option ℕ) (memory : ThreadMemory)
    (entry : ThreadArg × HostPointer) : Multiset ℕ :=
  if entry.1.kinds.isLocal then addresses (memory.load devicePtr entry.2) else 0

/-- Whether the second loop frees the entry. -/
def Frees (devicePtr : ℕ → Option ℕ) (memory : ThreadMemory)
    (entry : ThreadArg × HostPointer) : Prop :=
  entry.1.kinds.isLocal = true ∨ entry.1.kinds.isSampler = true ∨
    entry.1.kinds.isImage = true ∨
    (entry.1.kinds.isPointer = true ∧ memory.load devicePtr entry.2 = none)

instance (devicePtr : ℕ → Option ℕ) (memory : ThreadMemory)
    (entry : ThreadArg × HostPointer) : Decidable (Frees devicePtr memory entry) :=
  inferInstanceAs (Decidable (_ ∨ _))

/-- What the second loop has done to the memory after some entries. -/
structure Undone (devicePtr : ℕ → Option ℕ) (memory memory' : ThreadMemory)
    (entries : List (ThreadArg × HostPointer)) : Prop where
  device_eq : memory'.device + (entries.map (released devicePtr memory)).sum =
    memory.device
  cells_eq : memory'.cells = memory.cells
  nextBlock_eq : memory'.nextBlock = memory.nextBlock
  freed_eq : memory'.freed = memory.freed ++
    (entries.filter (Frees devicePtr memory)).map Prod.snd

theorem poclPthreadFree_eq_some {device device' : Multiset ℕ} {pointer : Option ℕ}
    (hfree : poclPthreadFree device .none pointer = some device') :
    device' + addresses pointer = device := by
  cases pointer with
  | none => simp [poclPthreadFree, MemFlags.none] at hfree
  | some address =>
      simp only [poclPthreadFree, MemFlags.none, Bool.false_eq_true, if_false] at hfree
      split at hfree
      next hcount =>
        cases hfree
        have hmem : address ∈ device := Multiset.count_pos.mp (by omega)
        rw [addresses, add_comm, Multiset.singleton_add, Multiset.cons_erase hmem]
      next => cases hfree

theorem cleanUpArgument_undone
    (hcleanUp : cleanUpArgument devicePtr memory entry = some memory') :
    Undone devicePtr memory memory' [entry] := by
  obtain ⟨arg, pointer⟩ := entry
  unfold cleanUpArgument at hcleanUp
  simp only at hcleanUp
  split at hcleanUp
  next hlocal =>
    obtain ⟨device, hfree, hresult⟩ := Option.bind_eq_some_iff.mp hcleanUp
    cases hresult
    refine ⟨?_, rfl, rfl, ?_⟩
    · simp only [List.map_singleton, List.sum_singleton, released, hlocal, if_true]
      exact poclPthreadFree_eq_some hfree
    · simp [Frees, hlocal, ThreadMemory.free]
  next hlocal =>
    split at hcleanUp
    next hfrees =>
      cases hcleanUp
      have hentry : Frees devicePtr memory (arg, pointer) := .inr hfrees
      exact ⟨by simp [released, hlocal, ThreadMemory.free], rfl, rfl,
        by simp [hentry, ThreadMemory.free]⟩
    next hfrees =>
      cases hcleanUp
      have hentry : ¬Frees devicePtr memory (arg, pointer) := by
        rintro (hlocal' | hother)
        · exact hlocal hlocal'
        · exact hfrees hother
      exact ⟨by simp [released, hlocal], rfl, rfl, by simp [hentry]⟩

theorem load_of_cells_eq (hcells : memory'.cells = memory.cells) :
    memory'.load devicePtr = memory.load devicePtr := by
  funext pointer
  cases pointer with
  | block id => exact congrFun hcells id
  | deviceEntry value => rfl
  | value address => rfl

theorem Undone.cons {memory'' : ThreadMemory}
    (hfirst : Undone devicePtr memory memory' [entry])
    (hrest : Undone devicePtr memory' memory'' entries) :
    Undone devicePtr memory memory'' (entry :: entries) := by
  have hload : memory'.load devicePtr = memory.load devicePtr :=
    load_of_cells_eq hfirst.cells_eq
  have hreleased : released devicePtr memory' = released devicePtr memory := by
    unfold released
    rw [hload]
  have hfrees : Frees devicePtr memory' = Frees devicePtr memory := by
    unfold Frees
    rw [hload]
  refine ⟨?_, hrest.cells_eq.trans hfirst.cells_eq,
    hrest.nextBlock_eq.trans hfirst.nextBlock_eq, ?_⟩
  · rw [← hfirst.device_eq, ← hrest.device_eq, hreleased, List.map_cons, List.sum_cons,
      List.map_singleton, List.sum_singleton]
    abel
  · rw [hrest.freed_eq, hfirst.freed_eq]
    simp only [hfrees, List.filter_cons]
    split <;> simp

theorem foldlM_cleanUpArgument_undone
    (hcleanUp : entries.foldlM (cleanUpArgument devicePtr) memory = some memory') :
    Undone devicePtr memory memory' entries := by
  induction entries generalizing memory with
  | nil =>
      cases hcleanUp
      exact ⟨by simp, rfl, rfl, by simp⟩
  | cons entry entries ih =>
      rw [List.foldlM_cons] at hcleanUp
      obtain ⟨memory₁, hfirst, hrest⟩ := Option.bind_eq_some_iff.mp hcleanUp
      exact (cleanUpArgument_undone hfirst).cons (ih hrest)

end CleanUp

section Threads

variable {allocator : DeviceAllocator} {devicePtr : ℕ → Option ℕ}
  {memory after : ThreadMemory} {arg : ThreadArg} {pointer : HostPointer}
  {args : List ThreadArg} {pointers : List HostPointer}

/-- What stays allocated for an entry. -/
def leaked (memory : ThreadMemory) (entry : ThreadArg × HostPointer) : Multiset ℕ :=
  if entry.1.kinds.isLocal then 0 else held memory.cells entry.2

theorem SetUpAs.held_eq (hsetUp : SetUpAs memory.cells arg pointer) :
    held memory.cells pointer =
      released devicePtr memory (arg, pointer) + leaked memory (arg, pointer) := by
  unfold released leaked
  by_cases hlocal : arg.kinds.isLocal = true
  · cases hsetUp with
    | localBlock id hlocal => simp [hlocal, ThreadMemory.load, held]
    | nullBlock id hlocal' => exact absurd hlocal (by simp [hlocal'])
    | entry value hlocal' => exact absurd hlocal (by simp [hlocal'])
    | written id address hlocal' => exact absurd hlocal (by simp [hlocal'])
    | plain hlocal' => exact absurd hlocal (by simp [hlocal'])
  · simp [hlocal]

theorem frees_of_block (hsetUp : SetUpAs memory.cells arg pointer) {id : ℕ}
    (hid : pointer.blockId = some id) : Frees devicePtr memory (arg, pointer) := by
  cases hsetUp with
  | localBlock id hlocal => exact .inl hlocal
  | nullBlock id hlocal hpointer hvalue hcell =>
      exact .inr (.inr (.inr ⟨hpointer, hcell⟩))
  | entry value => cases hid
  | written id address hlocal hpointer hkind hcell =>
      rcases hkind with hsampler | himage
      · exact .inr (.inl hsampler)
      · exact .inr (.inr (.inl himage))
  | plain => cases hid

/-- An argument is balanced if nothing of it leaks and only blocks are freed for it. -/
theorem balanced_iff (hsetUp : SetUpAs memory.cells arg pointer) :
    arg.Balanced devicePtr ↔
      leaked memory (arg, pointer) = 0 ∧
        (Frees devicePtr memory (arg, pointer) → pointer.blockId ≠ none) := by
  unfold ThreadArg.Balanced leaked Frees
  cases hsetUp with
  | localBlock id hlocal => simp [hlocal, HostPointer.blockId]
  | nullBlock id hlocal hpointer hvalue hcell =>
      simp [hlocal, hpointer, hvalue, hcell, held, addresses, HostPointer.blockId]
  | entry value hlocal hpointer hvalue =>
      simp [hlocal, hpointer, hvalue, held, HostPointer.blockId, ThreadMemory.load]
      tauto
  | written id address hlocal hpointer hkind hcell =>
      rcases hkind with hsampler | himage
      · simp [hlocal, hpointer, hsampler, hcell, held, addresses]
      · simp [hlocal, hpointer, himage, hcell, held, addresses]
  | plain hlocal hpointer himage hsampler =>
      simp [hlocal, hpointer, himage, hsampler, held]

theorem sum_held (hsetUp : List.Forall₂ (SetUpAs memory.cells) args pointers) :
    (pointers.map (held memory.cells)).sum =
      ((args.zip pointers).map (released devicePtr memory)).sum +
        ((args.zip pointers).map (leaked memory)).sum := by
  induction hsetUp with
  | nil => simp
  | cons hentry _ ih =>
      simp only [List.map_cons, List.sum_cons, List.zip_cons_cons]
      rw [ih, hentry.held_eq]
      abel

theorem count_blockId (pointers : List HostPointer) (id : ℕ) :
    (pointers.filterMap HostPointer.blockId).count id =
      pointers.count (.block id) := by
  induction pointers with
  | nil => rfl
  | cons pointer pointers ih =>
      cases pointer with
      | block other =>
          simp [HostPointer.blockId, List.count_cons, ih]
      | deviceEntry value =>
          rw [List.filterMap_cons_none rfl, List.count_cons_of_ne (by simp), ih]
      | value address =>
          rw [List.filterMap_cons_none rfl, List.count_cons_of_ne (by simp), ih]

/-- All blocks are freed. -/
theorem blocks_freed (hsetUp : List.Forall₂ (SetUpAs memory.cells) args pointers) :
    (((args.zip pointers).filter (Frees devicePtr memory)).map Prod.snd).filterMap
        HostPointer.blockId =
      pointers.filterMap HostPointer.blockId := by
  induction hsetUp with
  | nil => rfl
  | @cons arg pointer _ _ hentry _ ih =>
      rw [List.zip_cons_cons, List.filter_cons]
      cases hid : pointer.blockId with
      | none =>
          rw [List.filterMap_cons_none hid, ← ih]
          split
          · rw [List.map_cons, List.filterMap_cons_none hid]
          · rfl
      | some id =>
          rw [if_pos (decide_eq_true (frees_of_block hentry hid)), List.map_cons,
            List.filterMap_cons_some hid, List.filterMap_cons_some hid, ih]

theorem balanced_all_iff (hsetUp : List.Forall₂ (SetUpAs memory.cells) args pointers) :
    (∀ arg ∈ args, arg.Balanced devicePtr) ↔
      (∀ entry ∈ args.zip pointers, leaked memory entry = 0) ∧
        ∀ entry ∈ args.zip pointers, Frees devicePtr memory entry →
          entry.2.blockId ≠ none := by
  induction hsetUp with
  | nil => simp
  | cons hentry _ ih =>
      rw [List.zip_cons_cons, List.forall_mem_cons, List.forall_mem_cons,
        List.forall_mem_cons, ih, balanced_iff hentry]
      tauto

/-- The device allocations after the thread are those before it and what leaked. -/
theorem device_after {device : Multiset ℕ}
    (hstored : Stored (.start device) memory pointers)
    (hsetUp : List.Forall₂ (SetUpAs memory.cells) args pointers)
    (hundone : Undone devicePtr memory after (args.zip pointers)) :
    after.device = device + ((args.zip pointers).map (leaked memory)).sum := by
  have hheld : (pointers.map (held memory.cells)).sum =
      ((args.zip pointers).map (released devicePtr memory)).sum + _ := sum_held hsetUp
  have hsum := hundone.device_eq
  rw [hstored.device_eq, hheld, ← add_assoc, add_right_comm] at hsum
  exact add_right_cancel hsum

theorem neutral_iff {device : Multiset ℕ}
    (hstored : Stored (.start device) memory pointers)
    (hsetUp : List.Forall₂ (SetUpAs memory.cells) args pointers)
    (hundone : Undone devicePtr memory after (args.zip pointers)) :
    AllocationNeutral device after ↔ ∀ arg ∈ args, arg.Balanced devicePtr := by
  have hdevice := device_after hstored hsetUp hundone
  have hfreed : after.freed =
      ((args.zip pointers).filter (Frees devicePtr memory)).map Prod.snd := by
    rw [hundone.freed_eq, hstored.freed_eq]
    rfl
  have hblocks : after.freed.filterMap HostPointer.blockId =
      List.range' 0 after.nextBlock := by
    rw [hfreed, blocks_freed hsetUp, hstored.blocks_eq, hundone.nextBlock_eq]
    rfl
  rw [balanced_all_iff hsetUp]
  constructor
  · intro hneutral
    have hzero : ((args.zip pointers).map (leaked memory)).sum = 0 := by
      rw [hneutral.device_eq] at hdevice
      exact left_eq_add.mp hdevice
    refine ⟨?_, ?_⟩
    · intro entry hentry
      exact List.sum_eq_zero_iff.mp hzero _ (List.mem_map_of_mem hentry)
    · intro entry hentry hfrees hnone
      have hmem : entry.2 ∈ after.freed := by
        rw [hfreed]
        exact List.mem_map_of_mem (List.mem_filter.mpr ⟨hentry, decide_eq_true hfrees⟩)
      obtain ⟨id, _, hblock⟩ := hneutral.own_blocks _ hmem
      rw [hblock] at hnone
      cases hnone
  · rintro ⟨hleaked, hown⟩
    refine ⟨?_, ?_, ?_⟩
    · have hzero : ((args.zip pointers).map (leaked memory)).sum = 0 := by
        refine List.sum_eq_zero fun addresses haddresses => ?_
        obtain ⟨entry, hentry, rfl⟩ := List.mem_map.mp haddresses
        exact hleaked entry hentry
      rw [hdevice, hzero, add_zero]
    · intro id hid
      rw [← count_blockId, hblocks]
      exact List.count_eq_one_of_mem List.nodup_range'
        (by simpa [List.mem_range'_1] using hid)
    · intro pointer hpointer
      have hentry := hpointer
      rw [hfreed] at hentry
      obtain ⟨entry, hmem, rfl⟩ := List.mem_map.mp hentry
      obtain ⟨hzip, hfrees⟩ := List.mem_filter.mp hmem
      obtain ⟨id, hid⟩ :=
        Option.ne_none_iff_exists'.mp (hown entry hzip (of_decide_eq_true hfrees))
      have hrange : id ∈ after.freed.filterMap HostPointer.blockId :=
        List.mem_filterMap.mpr ⟨entry.2, hpointer, hid⟩
      rw [hblocks, List.mem_range'_1] at hrange
      refine ⟨id, by omega, ?_⟩
      cases hpointer' : entry.2 with
      | block other =>
          rw [hpointer'] at hid
          cases hid
          rfl
      | deviceEntry value =>
          rw [hpointer'] at hid
          cases hid
      | value address =>
          rw [hpointer'] at hid
          cases hid

theorem workgroupThread_eq_some {device : Multiset ℕ} {locals : List ℕ}
    (hthread : workgroupThread allocator devicePtr device args locals = some after) :
    ∃ memory pointers,
      Stored (.start device) memory pointers ∧
        List.Forall₂ (SetUpAs memory.cells) (args ++ locals.map ThreadArg.automatic)
          pointers ∧
        Undone devicePtr memory after
          ((args ++ locals.map ThreadArg.automatic).zip pointers) := by
  obtain ⟨⟨memory, pointers⟩, hsetUp, hcleanUp⟩ := Option.bind_eq_some_iff.mp hthread
  obtain ⟨hstored, hsetUpAs⟩ := setUpArguments_stored hsetUp
  exact ⟨memory, pointers, hstored, hsetUpAs, foldlM_cleanUpArgument_undone hcleanUp⟩

section Returns

/-- The device always has memory. -/
def DeviceAllocator.Total (allocator : DeviceAllocator) : Prop :=
  ∀ device size, allocator device size ≠ none

/-- A chunk of at least one byte does not start where another one does. -/
def DeviceAllocator.Fresh (allocator : DeviceAllocator) : Prop :=
  ∀ device size address, 0 < size → allocator device size = some address →
    address ∉ device

/-- A local argument has at least one byte. -/
def ThreadArg.Sized (arg : ThreadArg) : Prop :=
  arg.kinds.isLocal = true → 0 < arg.size

/-- What an allocation of at least one byte adds to the device. -/
theorem storeAllocation_device (htotal : DeviceAllocator.Total allocator)
    (hfresh : DeviceAllocator.Fresh allocator) (memory : ThreadMemory) {size : ℕ}
    (hsize : 0 < size) :
    ∃ address,
      (memory.storeAllocation allocator size).1.cells memory.nextBlock =
          some address ∧
        (memory.storeAllocation allocator size).1.device =
          address ::ₘ memory.device ∧
        address ∉ memory.device := by
  obtain ⟨address, hnew⟩ :=
    Option.ne_none_iff_exists'.mp (htotal memory.device size)
  have hmalloc : poclPthreadMalloc allocator memory.device .none size none =
      (address ::ₘ memory.device, some address) := by
    simp [poclPthreadMalloc, allocateAligned, MemFlags.none, hnew]
  refine ⟨address, ?_, ?_, hfresh _ _ _ hsize hnew⟩
  · exact (Function.update_self _ _ _).trans (congrArg Prod.snd hmalloc)
  · exact congrArg Prod.fst hmalloc

/-- The addresses in use start one chunk each, as before. -/
def KeepsCounts (memory memory' : ThreadMemory) : Prop :=
  ∀ address ∈ memory.device,
    memory'.device.count address = memory.device.count address

/-- The block of a local argument holds an address at which at most one chunk starts. -/
def LocalStored (devicePtr : ℕ → Option ℕ) (memory : ThreadMemory)
    (entry : ThreadArg × HostPointer) : Prop :=
  entry.1.kinds.isLocal = true →
    ∃ address, memory.load devicePtr entry.2 = some address ∧
      memory.device.count address ≤ 1

theorem storeAllocation_keepsCounts (htotal : DeviceAllocator.Total allocator)
    (hfresh : DeviceAllocator.Fresh allocator) (memory : ThreadMemory) {size : ℕ}
    (hsize : 0 < size) :
    KeepsCounts memory (memory.storeAllocation allocator size).1 := by
  obtain ⟨new, -, hdevice, hnew⟩ := storeAllocation_device htotal hfresh memory hsize
  intro address haddress
  have hne : address ≠ new := fun heq => hnew (heq ▸ haddress)
  rw [hdevice, Multiset.count_cons_of_ne hne]

theorem setUpArgument_returns (htotal : DeviceAllocator.Total allocator)
    (hfresh : DeviceAllocator.Fresh allocator) (hreadable : arg.Readable)
    (hsized : arg.Sized) (memory : ThreadMemory) :
    ∃ memory' pointer, setUpArgument allocator memory arg = some (memory', pointer) ∧
      KeepsCounts memory memory' ∧
      (arg.kinds.isLocal = true →
        ∃ address, memory'.load devicePtr pointer = some address ∧
          address ∈ memory'.device ∧ memory'.device.count address = 1) := by
  have hwritten (size : ℕ) (hsize : 0 < size) :
      writtenAllocation allocator memory size =
        some (memory.storeAllocation allocator size) := by
    obtain ⟨address, hcell, -⟩ := storeAllocation_device htotal hfresh memory hsize
    exact if_neg (Option.ne_none_iff_exists'.mpr ⟨address, hcell⟩)
  unfold setUpArgument
  split
  next hlocal =>
    have hsize := hsized hlocal
    obtain ⟨address, hcell, hdevice, hnew⟩ :=
      storeAllocation_device htotal hfresh memory hsize
    have hcount :
        (memory.storeAllocation allocator arg.size).1.device.count address = 1 := by
      rw [hdevice, Multiset.count_cons_self, Multiset.count_eq_zero_of_notMem hnew]
    exact ⟨_, _, rfl, storeAllocation_keepsCounts htotal hfresh memory hsize,
      fun _ => ⟨address, hcell, Multiset.count_pos.mp (hcount ▸ Nat.one_pos), hcount⟩⟩
  next hlocal =>
    split
    next hpointer =>
      split
      next => exact ⟨_, _, rfl, fun _ _ => rfl, fun h => (hlocal h).elim⟩
      next => exact ⟨_, _, rfl, fun _ _ => rfl, fun h => (hlocal h).elim⟩
    next hpointer =>
      split
      next himage =>
        split
        next hvalue =>
          exact (hreadable (by simpa using hlocal) (by simpa using hpointer) himage
            hvalue).elim
        next =>
          exact ⟨_, _, hwritten imageSize (by decide),
            storeAllocation_keepsCounts htotal hfresh memory (by decide),
            fun h => (hlocal h).elim⟩
      next =>
        split
        next =>
          exact ⟨_, _, hwritten samplerSize (by decide),
            storeAllocation_keepsCounts htotal hfresh memory (by decide),
            fun h => (hlocal h).elim⟩
        next => exact ⟨_, _, rfl, fun _ _ => rfl, fun h => (hlocal h).elim⟩

theorem load_of_stored {memory' : ThreadMemory}
    (hcells : ∀ id, pointer.blockId = some id → memory'.cells id = memory.cells id) :
    memory'.load devicePtr pointer = memory.load devicePtr pointer := by
  cases pointer with
  | block id => exact hcells id rfl
  | deviceEntry value => rfl
  | value address => rfl

theorem KeepsCounts.trans {memory' memory'' : ThreadMemory}
    (hfirst : KeepsCounts memory memory') (hrest : KeepsCounts memory' memory'') :
    KeepsCounts memory memory'' := by
  intro address haddress
  have hcount := hfirst address haddress
  have hmem : address ∈ memory'.device := by
    rw [← Multiset.count_pos, hcount, Multiset.count_pos]
    exact haddress
  rw [hrest address hmem, hcount]

theorem setUpArguments_returns (htotal : DeviceAllocator.Total allocator)
    (hfresh : DeviceAllocator.Fresh allocator)
    (hargs : ∀ arg ∈ args, arg.Readable ∧ arg.Sized) (memory : ThreadMemory) :
    ∃ memory' pointers, setUpArguments allocator memory args = some (memory', pointers) ∧
      KeepsCounts memory memory' ∧
      ∀ entry ∈ args.zip pointers, LocalStored devicePtr memory' entry := by
  induction args generalizing memory with
  | nil => exact ⟨memory, [], rfl, fun _ _ => rfl, by simp⟩
  | cons arg args ih =>
      obtain ⟨harg, hothers⟩ := List.forall_mem_cons.mp hargs
      obtain ⟨memory₁, pointer, hfirst, hkeeps, hlocal⟩ :=
        setUpArgument_returns htotal hfresh harg.1 harg.2 memory
      obtain ⟨memory₂, pointers, hrest, hkeepsRest, hlocals⟩ := ih hothers memory₁
      refine ⟨memory₂, pointer :: pointers, by simp [setUpArguments, hfirst, hrest],
        hkeeps.trans hkeepsRest, List.forall_mem_cons.mpr ⟨?_, hlocals⟩⟩
      intro hkind
      obtain ⟨address, hload, hmem, hcount⟩ := hlocal hkind
      have hstored := (setUpArgument_stored hfirst).1
      have hcells := (setUpArguments_stored hrest).1.cells_eq
      refine ⟨address, ?_, ((hkeepsRest address hmem).trans hcount).le⟩
      rw [load_of_stored fun id hid => hcells id (hstored.blockId_lt hid)]
      exact hload

theorem cleanUpArgument_returns {entry : ThreadArg × HostPointer}
    (hlocal : LocalStored devicePtr memory entry)
    (hdevice : released devicePtr memory entry ≤ memory.device) :
    ∃ memory', cleanUpArgument devicePtr memory entry = some memory' := by
  unfold cleanUpArgument
  dsimp only
  split
  next hkind =>
    obtain ⟨address, hload, hle⟩ := hlocal hkind
    rw [released, if_pos hkind, hload] at hdevice
    have hmem : address ∈ memory.device := Multiset.singleton_le.mp hdevice
    have hcount : memory.device.count address = 1 :=
      le_antisymm hle (Multiset.count_pos.mpr hmem)
    rw [hload, poclPthreadFree, if_neg (by simp [MemFlags.none]), if_pos hcount]
    exact ⟨_, rfl⟩
  next =>
    split
    next => exact ⟨_, rfl⟩
    next => exact ⟨_, rfl⟩

theorem cleanUp_returns {entries : List (ThreadArg × HostPointer)}
    (hlocals : ∀ entry ∈ entries, LocalStored devicePtr memory entry)
    (hdevice : (entries.map (released devicePtr memory)).sum ≤ memory.device) :
    ∃ after, entries.foldlM (cleanUpArgument devicePtr) memory = some after := by
  induction entries generalizing memory with
  | nil => exact ⟨memory, rfl⟩
  | cons entry entries ih =>
      rw [List.map_cons, List.sum_cons] at hdevice
      obtain ⟨hentry, hothers⟩ := List.forall_mem_cons.mp hlocals
      obtain ⟨memory₁, hfirst⟩ :=
        cleanUpArgument_returns hentry ((Multiset.le_add_right _ _).trans hdevice)
      have hundone := cleanUpArgument_undone hfirst
      have hload : memory₁.load devicePtr = memory.load devicePtr :=
        load_of_cells_eq hundone.cells_eq
      have hreleased : released devicePtr memory₁ = released devicePtr memory := by
        unfold released
        rw [hload]
      have hle : memory₁.device ≤ memory.device := by
        rw [← hundone.device_eq]
        exact Multiset.le_add_right _ _
      have hlocals₁ : ∀ other ∈ entries, LocalStored devicePtr memory₁ other := by
        intro other hother hkind
        obtain ⟨address, hother, hcount⟩ := hothers other hother hkind
        exact ⟨address, by rw [hload, hother],
          (Multiset.count_le_of_le address hle).trans hcount⟩
      have hdevice₁ : (entries.map (released devicePtr memory₁)).sum ≤
          memory₁.device := by
        rw [← hundone.device_eq, List.map_singleton, List.sum_singleton,
          add_comm] at hdevice
        rw [hreleased]
        exact le_of_add_le_add_right hdevice
      obtain ⟨after, hrest⟩ := ih hlocals₁ hdevice₁
      exact ⟨after, by rw [List.foldlM_cons, hfirst]; exact hrest⟩

/-- A thread returns if the device has memory, no image is null and every local
variable has a byte. -/
theorem workgroupThread_returns (htotal : DeviceAllocator.Total allocator)
    (hfresh : DeviceAllocator.Fresh allocator)
    (hargs : ∀ arg ∈ args, arg.Readable ∧ arg.Sized) (device : Multiset ℕ)
    {locals : List ℕ} (hsizes : ∀ size ∈ locals, 0 < size) :
    ∃ after, workgroupThread allocator devicePtr device args locals = some after := by
  have hall : ∀ arg ∈ args ++ locals.map ThreadArg.automatic,
      arg.Readable ∧ arg.Sized := by
    intro arg harg
    rcases List.mem_append.mp harg with hold | hauto
    · exact hargs arg hold
    · obtain ⟨size, hsize, rfl⟩ := List.mem_map.mp hauto
      refine ⟨fun hlocal => ?_, fun _ => hsizes size hsize⟩
      cases hlocal
  obtain ⟨memory, pointers, hsetUp, -, hlocals⟩ :=
    setUpArguments_returns htotal hfresh hall (.start device)
  obtain ⟨hstored, hsetUpAs⟩ := setUpArguments_stored hsetUp
  have hdevice : (((args ++ locals.map ThreadArg.automatic).zip pointers).map
      (released devicePtr memory)).sum ≤ memory.device := by
    rw [hstored.device_eq, sum_held hsetUpAs]
    exact (Multiset.le_add_right _ _).trans (Multiset.le_add_left _ _)
  obtain ⟨after, hcleanUp⟩ := cleanUp_returns hlocals hdevice
  exact ⟨after, Option.bind_eq_some_iff.mpr ⟨(memory, pointers), hsetUp, hcleanUp⟩⟩

end Returns

end Threads

/-- A thread returns if the device has memory, every local variable has a byte and no
image is null, and a thread that returns is allocation neutral exactly if all arguments
are balanced. -/
theorem workgroupThread_neutral_iff
    (allocator : DeviceAllocator) (devicePtr : ℕ → Option ℕ) (device : Multiset ℕ)
    (args : List ThreadArg) (locals : List ℕ) :
    (allocator.Total → allocator.Fresh → (∀ arg ∈ args, arg.Readable ∧ arg.Sized) →
        (∀ size ∈ locals, 0 < size) →
        ∃ after,
          workgroupThread allocator devicePtr device args locals = some after) ∧
      ∀ after, workgroupThread allocator devicePtr device args locals = some after →
        (AllocationNeutral device after ↔ ∀ arg ∈ args, arg.Balanced devicePtr) := by
  refine ⟨fun htotal hfresh hargs hsizes =>
    workgroupThread_returns htotal hfresh hargs device hsizes, ?_⟩
  intro after hthread
  obtain ⟨memory, pointers, hstored, hsetUp, hundone⟩ := workgroupThread_eq_some hthread
  rw [neutral_iff hstored hsetUp hundone]
  refine ⟨fun hall arg harg => hall arg (by simp [harg]), fun hargs arg harg => ?_⟩
  rcases List.mem_append.mp harg with hold | hauto
  · exact hargs arg hold
  · obtain ⟨size, _, rfl⟩ := List.mem_map.mp hauto
    exact .inl rfl

/-- The device hands out the addresses above those in use. -/
def bumpAllocator : DeviceAllocator :=
  fun device size => some (max 4096 device.sup + size)

theorem bumpAllocator_fresh : bumpAllocator.Fresh := by
  intro device size address hsize hnew hmem
  have hle : address ≤ device.sup := Multiset.le_sup hmem
  have heq : max 4096 device.sup + size = address := Option.some.inj hnew
  omega

/-- A local argument, a buffer and an automatic local variable. -/
theorem bufferThread_neutral :
    ∃ after,
      workgroupThread bumpAllocator (fun _ => some 64) {64}
          [⟨⟨true, true, false, false, false⟩, 16, none⟩,
            ⟨⟨true, false, false, false, false⟩, 8, some 1⟩] [32] = some after ∧
        AllocationNeutral {64} after := by
  obtain ⟨hreturns, hneutral⟩ :=
    workgroupThread_neutral_iff bumpAllocator (fun _ => some 64) {64}
      [⟨⟨true, true, false, false, false⟩, 16, none⟩,
        ⟨⟨true, false, false, false, false⟩, 8, some 1⟩] [32]
  obtain ⟨after, hthread⟩ :=
    hreturns (fun _ _ => by simp [bumpAllocator]) bumpAllocator_fresh
      (by simp [ThreadArg.Readable, ThreadArg.Sized]) (by simp)
  exact ⟨after, hthread, (hneutral after hthread).mpr (by simp [ThreadArg.Balanced])⟩

/-- The device allocation of an image stays. -/
theorem imageThread_not_neutral :
    ∃ after,
      workgroupThread bumpAllocator (fun _ => some 64) {64}
          [⟨⟨false, false, true, false, false⟩, 8, some 1⟩] [] = some after ∧
        ¬AllocationNeutral {64} after := by
  refine ⟨_, rfl, fun hneutral => ?_⟩
  have hdevice := hneutral.device_eq
  revert hdevice
  decide

end Pocl.PthreadWorkgroups
