import Pocl.BufallocContainment

/-!
# The memory of a TTA device

`initMemoryManagement` looks for the address spaces of the machine and makes two
regions, one in the local space and one in the global space.  The size of the second
one is taken from the end of the global space and the start of the local space.

Buffers are allocated from the global region, local memory from the other one.  The
`next` field of the regions is not set by the driver; it is null here.
-/

namespace Pocl.TceMemory

open Bufalloc

def asidPrivate : ℕ := 0
def asidGlobal : ℕ := 3
def asidLocal : ℕ := 4
def asidConstant : ℕ := 5

def unallocatedLocalSpace : BitVec 32 := 16 * 1024
def unallocatedGlobalSpace : BitVec 32 := 16 * 1024

/-- An address space of a machine; its last address belongs to it. -/
structure AddressSpace where
  numericalIds : List ℕ
  start : BitVec 32
  finish : BitVec 32
  start_le : start.toNat ≤ finish.toNat

def AddressSpace.hasNumericalId (space : AddressSpace) (id : ℕ) : Bool :=
  decide (id ∈ space.numericalIds)

/-- The address spaces found so far.  They are compared by their positions in the
machine. -/
structure FoundSpaces where
  localAs : Option (AddressSpace × ℕ)
  privateAs : Option (AddressSpace × ℕ)
  globalAs : Option (AddressSpace × ℕ)

def FoundSpaces.visit (found : FoundSpaces) (item : AddressSpace × ℕ) :
    FoundSpaces where
  localAs := if item.1.hasNumericalId asidLocal then some item else found.localAs
  privateAs := if item.1.hasNumericalId asidPrivate then some item else found.privateAs
  globalAs :=
    if item.1.hasNumericalId asidGlobal && item.1.hasNumericalId asidConstant then
      some item
    else found.globalAs

def findSpaces (machine : List AddressSpace) : FoundSpaces :=
  machine.zipIdx.foldl FoundSpaces.visit
    { localAs := none, privateAs := none, globalAs := none }

/-- The size of the region in the local space, as an `int`. -/
def localSize (localAs privateAs : AddressSpace × ℕ) : BitVec 32 :=
  if privateAs.2 = localAs.2 then
    localAs.1.finish - localAs.1.start - unallocatedLocalSpace
  else localAs.1.finish - localAs.1.start

/-- The size of the region in the global space, as an `int`. -/
def globalSize (localAs globalAs : AddressSpace × ℕ) : BitVec 32 :=
  globalAs.1.finish - localAs.1.start - unallocatedGlobalSpace

structure Device (n : ℕ) where
  localMem : MemoryRegion n
  globalMem : MemoryRegion n
  localMemSize : BitVec 64
  globalMemSize : BitVec 64
  maxMemAllocSize : BitVec 64

/-- The regions, or the message with which the driver aborts. -/
def initMemoryManagement {n : ℕ} [NeZero n]
    (localMem globalMem : MemoryRegion n) (machine : List AddressSpace) :
    Except String (Option (Device n)) :=
  let found := findSpaces machine
  match found.localAs, found.privateAs, found.globalAs with
  | none, _, _ =>
      .error ("local address space not found in the ADF. " ++
        "Mark it by adding numerical ids 4 to the AS.\n" ++
        "Local address space can be same as private AS.\n")
  | some _, none, _ =>
      .error ("private address space not found in the ADF. " ++
        "Mark it by adding numerical ids 0 to the AS.\n" ++
        "Private address space can be same as local AS.\n")
  | some _, some _, none =>
      .error ("global address space not found in the ADF. " ++
        "Mark it by adding numerical ids 3 and 5 to the AS.\n")
  | some localAs, some privateAs, some globalAs =>
      let localSize := localSize localAs privateAs
      if localSize.toInt < 0 then
        .error "Not enough space in the local memory with the assumed unallocated space.\n"
      else
        let globalSize := globalSize localAs globalAs
        if globalSize.toInt < 0 then
          .error
            "Not enough space in the global memory with the assumed unallocated space.\n"
        else
          .ok do
            let localMem ← localMem.initMemRegion (localAs.1.start.setWidth 64)
              (localSize.signExtend 64)
            let globalMem ← globalMem.initMemRegion
              (globalAs.1.start.setWidth 64 + unallocatedGlobalSpace.signExtend 64)
              (globalSize.signExtend 64)
            return {
              localMem := localMem
              globalMem := globalMem
              localMemSize := localSize.signExtend 64
              globalMemSize := globalSize.signExtend 64
              maxMemAllocSize := globalSize.signExtend 64 }

/-! ## Allocations -/

inductive Memory
  | localMem
  | globalMem
  deriving DecidableEq

/-- The regions with what their clients hold. -/
structure State (n : ℕ) where
  localMem : AllocatorState n
  globalMem : AllocatorState n

def State.memory {n : ℕ} (state : State n) : Memory → AllocatorState n
  | .localMem => state.localMem
  | .globalMem => state.globalMem

def State.setMemory {n : ℕ} (state : State n) :
    Memory → AllocatorState n → State n
  | .localMem, memory => { state with localMem := memory }
  | .globalMem, memory => { state with globalMem := memory }

def Device.initial {n : ℕ} (device : Device n) : State n where
  localMem := { region := device.localMem, live := [] }
  globalMem := { region := device.globalMem, live := [] }

/-- `alloc_buffer` for the list that consists of the region. -/
def allocFrom {n : ℕ} (memory : AllocatorState n) (size : BitVec 64) :
    Option (AllocatorState n) :=
  match allocBuffer size [memory.region] with
  | some ([region], chunk) => some (memory.acquire region size (chunk.map Prod.snd))
  | _ => none

theorem allocFrom_eq {n : ℕ} (memory : AllocatorState n) (size : BitVec 64) :
    allocFrom memory size = memory.step (.alloc size) := by
  cases halloc : memory.region.allocBufferFromRegion size with
  | none => simp [allocFrom, AllocatorState.step, allocBuffer, halloc]
  | some answer =>
      obtain ⟨region, result⟩ := answer
      cases result <;> simp [allocFrom, AllocatorState.step, allocBuffer, halloc]

inductive Call (n : ℕ)
  | malloc (size : BitVec 64)
  | mallocLocal (size : BitVec 64)
  | free (memory : Memory) (order : ArgumentOrder) (chunk : Fin n)

/-- `pocl_tce_malloc`, `pocl_tce_malloc_local` and `pocl_tce_free`. -/
def step {n : ℕ} (state : State n) : Call n → Option (State n)
  | .malloc size => (allocFrom state.globalMem size).map (state.setMemory .globalMem)
  | .mallocLocal size => (allocFrom state.localMem size).map (state.setMemory .localMem)
  | .free memory order chunk =>
      ((state.memory memory).region.freeChunk order chunk).map fun region =>
        state.setMemory memory ((state.memory memory).release region chunk)

/-- Only chunks that the client holds are freed. -/
def Admissible {n : ℕ} (state : State n) : Call n → Prop
  | .free memory _ chunk => chunk ∈ (state.memory memory).liveChunks
  | _ => True

def RequestWellJudged {n : ℕ} (memory : AllocatorState n) (size : BitVec 64) : Prop :=
  ∀ records, IsDList memory.region.links memory.region.chunks records →
    WellJudged 6 memory.region records size

/-- The fit test does not let the request into a chunk that it does not fit. -/
def Judged {n : ℕ} (state : State n) : Call n → Prop
  | .malloc size => RequestWellJudged state.globalMem size
  | .mallocLocal size => RequestWellJudged state.localMem size
  | .free _ _ _ => True

/-- The states of the runs whose calls are admissible and permitted. -/
inductive Reachable {n : ℕ} (permitted : State n → Call n → Prop)
    (initial : State n) : State n → Prop
  | refl : Reachable permitted initial initial
  | step {state state' : State n} {call : Call n}
      (hreach : Reachable permitted initial state)
      (hadmissible : Admissible state call) (hpermitted : permitted state call)
      (hstep : step state call = some state') : Reachable permitted initial state'

/-- Every address of every range that is held is in the interval. -/
def Inside {n : ℕ} (first last : ℕ) (memory : AllocatorState n) : Prop :=
  ∀ entry ∈ memory.live, ∀ address,
    (memory.region.allChunks entry.1).first ≤ address →
      address < (memory.region.allChunks entry.1).first + entry.2.toNat →
        first ≤ address ∧ address ≤ last

/-- The last address of the local space below its reserved part. -/
def lastLocal (localAs privateAs : AddressSpace × ℕ) : ℕ :=
  if privateAs.2 = localAs.2 then
    localAs.1.finish.toNat - unallocatedLocalSpace.toNat
  else localAs.1.finish.toNat

structure StaysInside {n : ℕ}
    (localAs privateAs globalAs : AddressSpace × ℕ) (state : State n) : Prop where
  globalMem : Inside (globalAs.1.start.toNat + unallocatedGlobalSpace.toNat)
    globalAs.1.finish.toNat state.globalMem
  localMem : Inside localAs.1.start.toNat (lastLocal localAs privateAs) state.localMem

/-- The global space starts at most one address above the local one, or there is no
aligned address in the region.  The size of the region is computed modulo `2 ^ 32`. -/
def GlobalFits (localAs globalAs : AddressSpace × ℕ) : Prop :=
  let wrapped := if localAs.1.start.toNat + unallocatedGlobalSpace.toNat ≤
    globalAs.1.finish.toNat then 0 else 2 ^ 32
  globalAs.1.start.toNat + wrapped ≤ localAs.1.start.toNat + 1 ∨
    globalAs.1.start.toNat + globalAs.1.finish.toNat + wrapped ≤
      localAs.1.start.toNat +
        alignUp 6 (globalAs.1.start.toNat + unallocatedGlobalSpace.toNat)

section Sizes

variable {localAs privateAs globalAs : AddressSpace × ℕ}

/-- The end of the global region. -/
def globalEnd (localAs globalAs : AddressSpace × ℕ) : ℕ :=
  globalAs.1.start.toNat + unallocatedGlobalSpace.toNat +
    (globalSize localAs globalAs).toNat

theorem toNat_lt_of_nonneg {size : BitVec 32} (hsize : ¬size.toInt < 0) :
    size.toNat < 2 ^ 31 := by
  rw [BitVec.toInt_eq_toNat_cond] at hsize
  have := size.isLt
  split at hsize
  · omega
  · omega

theorem toNat_signExtend_size {size : BitVec 32} (hsize : ¬size.toInt < 0) :
    (size.signExtend 64).toNat = size.toNat := by
  have hkept := toNat_signExtend_of_nonneg (not_lt.mp hsize)
  have hsmall := toNat_lt_of_nonneg hsize
  rw [BitVec.toInt_eq_toNat_cond, if_pos (by omega)] at hkept
  omega

/-- The local region ends below the reserved part of the local space. -/
theorem localEnd_le (hsize : ¬(localSize localAs privateAs).toInt < 0) :
    localAs.1.start.toNat + (localSize localAs privateAs).toNat ≤
      lastLocal localAs privateAs := by
  have hsmall := toNat_lt_of_nonneg hsize
  have hbounds := localAs.1.start_le
  have hfinish := localAs.1.finish.isLt
  have hreserved : unallocatedLocalSpace.toNat = 16384 := rfl
  unfold localSize lastLocal at *
  split at hsmall
  · next heq =>
    rw [if_pos heq, if_pos heq]
    simp only [BitVec.toNat_sub, hreserved] at hsmall ⊢
    omega
  · next hne =>
    rw [if_neg hne, if_neg hne]
    simp only [BitVec.toNat_sub] at hsmall ⊢
    omega

theorem globalFits_iff (hsize : ¬(globalSize localAs globalAs).toInt < 0) :
    GlobalFits localAs globalAs ↔
      globalEnd localAs globalAs ≤ globalAs.1.finish.toNat + 1 ∨
        globalEnd localAs globalAs ≤
          alignUp 6 (globalAs.1.start.toNat + unallocatedGlobalSpace.toNat) := by
  have hsmall := toNat_lt_of_nonneg hsize
  have hlocal := localAs.1.start.isLt
  have hfinish := globalAs.1.finish.isLt
  have hreserved : unallocatedGlobalSpace.toNat = 16384 := rfl
  unfold GlobalFits globalEnd globalSize at *
  simp only [BitVec.toNat_sub, hreserved] at hsmall ⊢
  generalize alignUp 6 (globalAs.1.start.toNat + 16384) = aligned
  split <;> omega

end Sizes

/-! ## What the clients hold -/

section Clients

variable {n : ℕ} {localAs privateAs globalAs : AddressSpace × ℕ}

/-- What both clients hold lies in the regions. -/
structure Held (localAs privateAs globalAs : AddressSpace × ℕ) (state : State n) :
    Prop where
  localMem : Holding 6 localAs.1.start.toNat
    (localAs.1.start.toNat + (localSize localAs privateAs).toNat) state.localMem
  globalMem : Holding 6 (globalAs.1.start.toNat + unallocatedGlobalSpace.toNat)
    (globalEnd localAs globalAs) state.globalMem

theorem Held.step
    (hcount : 2 < n) (hlocal : ¬(localSize localAs privateAs).toInt < 0)
    (hglobal : ¬(globalSize localAs globalAs).toInt < 0) {state state' : State n}
    (hheld : Held localAs privateAs globalAs state) {call : Call n}
    (hadmissible : Admissible state call) (hjudged : Judged state call)
    (hstep : step state call = some state') :
    Held localAs privateAs globalAs state' := by
  have hlocalSize := toNat_lt_of_nonneg hlocal
  have hglobalSize := toNat_lt_of_nonneg hglobal
  have hlocalStart := localAs.1.start.isLt
  have hglobalStart := globalAs.1.start.isLt
  have hreserved : unallocatedGlobalSpace.toNat = 16384 := rfl
  have hglobalEnd : globalEnd localAs globalAs =
      globalAs.1.start.toNat + unallocatedGlobalSpace.toNat +
        (globalSize localAs globalAs).toNat := rfl
  cases call with
  | malloc size =>
      obtain ⟨memory, halloc, rfl⟩ := Option.map_eq_some_iff.mp hstep
      rw [allocFrom_eq] at halloc
      exact ⟨hheld.localMem, hheld.globalMem.alloc (by decide) (by omega) (by omega)
        hcount hjudged halloc⟩
  | mallocLocal size =>
      obtain ⟨memory, halloc, rfl⟩ := Option.map_eq_some_iff.mp hstep
      rw [allocFrom_eq] at halloc
      exact ⟨hheld.localMem.alloc (by decide) (by omega) (by omega) hcount hjudged
        halloc, hheld.globalMem⟩
  | free memory order chunk =>
      obtain ⟨region, hfree, rfl⟩ := Option.map_eq_some_iff.mp hstep
      cases memory with
      | localMem =>
          exact ⟨hheld.localMem.freeChunk (by omega) hadmissible
            (Option.map_eq_some_iff.mpr ⟨region, hfree, rfl⟩), hheld.globalMem⟩
      | globalMem =>
          exact ⟨hheld.localMem, hheld.globalMem.freeChunk (by omega) hadmissible
            (Option.map_eq_some_iff.mpr ⟨region, hfree, rfl⟩)⟩

theorem Held.inside_local
    (hlocal : ¬(localSize localAs privateAs).toInt < 0) {state : State n}
    (hheld : Held localAs privateAs globalAs state) :
    Inside localAs.1.start.toNat (lastLocal localAs privateAs) state.localMem := by
  intro entry hentry address hlower hupper
  obtain ⟨hfirst, hlast⟩ := hheld.localMem.bounds hentry
  have hround := le_alignUp 6 localAs.1.start.toNat
  have hend := localEnd_le hlocal
  omega

theorem Held.inside_global
    (hglobal : ¬(globalSize localAs globalAs).toInt < 0)
    (hfits : GlobalFits localAs globalAs) {state : State n}
    (hheld : Held localAs privateAs globalAs state) :
    Inside (globalAs.1.start.toNat + unallocatedGlobalSpace.toNat)
      globalAs.1.finish.toNat state.globalMem := by
  intro entry hentry address hlower hupper
  obtain ⟨hfirst, hlast⟩ := hheld.globalMem.bounds hentry
  have hround :=
    le_alignUp 6 (globalAs.1.start.toNat + unallocatedGlobalSpace.toNat)
  rcases (globalFits_iff hglobal).mp hfits with hend | hend
  · omega
  · omega

end Clients

/-! ## The regions of the device -/

section Regions

variable {n : ℕ} [NeZero n] {localMem globalMem : MemoryRegion n}
  {machine : List AddressSpace} {device : Device n}

/-- The spaces of the machine and the regions of the device. -/
structure Initialized (machine : List AddressSpace) (device : Device n)
    (localAs privateAs globalAs : AddressSpace × ℕ) : Prop where
  found : findSpaces machine =
    { localAs := some localAs, privateAs := some privateAs, globalAs := some globalAs }
  localSize_nonneg : ¬(localSize localAs privateAs).toInt < 0
  globalSize_nonneg : ¬(globalSize localAs globalAs).toInt < 0
  localMem : SetUp device.localMem (localAs.1.start.setWidth 64)
    ((localSize localAs privateAs).signExtend 64) 6 .wasteful
  globalMem : SetUp device.globalMem
    (globalAs.1.start.setWidth 64 + unallocatedGlobalSpace.signExtend 64)
    ((globalSize localAs globalAs).signExtend 64) 6 .wasteful

theorem initialized_of_init
    (hinit : initMemoryManagement localMem globalMem machine = .ok (some device)) :
    ∃ localAs privateAs globalAs,
      Initialized machine device localAs privateAs globalAs := by
  unfold initMemoryManagement at hinit
  cases hfound : findSpaces machine with
  | mk localFound privateFound globalFound =>
      rw [hfound] at hinit
      cases localFound with
      | none => cases hinit
      | some localAs =>
          cases privateFound with
          | none => cases hinit
          | some privateAs =>
              cases globalFound with
              | none => cases hinit
              | some globalAs =>
                  dsimp only at hinit
                  split at hinit
                  · cases hinit
                  next hlocal =>
                    split at hinit
                    · cases hinit
                    next hglobal =>
                      obtain ⟨region, hregion, hsetUp⟩ := initMemRegion_setUp localMem
                        (localAs.1.start.setWidth 64)
                        ((localSize localAs privateAs).signExtend 64)
                      obtain ⟨region', hregion', hsetUp'⟩ := initMemRegion_setUp globalMem
                        (globalAs.1.start.setWidth 64 +
                          unallocatedGlobalSpace.signExtend 64)
                        ((globalSize localAs globalAs).signExtend 64)
                      rw [hregion, hregion'] at hinit
                      cases hinit
                      exact ⟨localAs, privateAs, globalAs, hfound, hlocal, hglobal,
                        hsetUp, hsetUp'⟩

theorem exists_device
    (localMem globalMem : MemoryRegion n) {localAs privateAs globalAs : AddressSpace × ℕ}
    (hfound : findSpaces machine =
      { localAs := some localAs, privateAs := some privateAs,
        globalAs := some globalAs })
    (hlocal : ¬(localSize localAs privateAs).toInt < 0)
    (hglobal : ¬(globalSize localAs globalAs).toInt < 0) :
    ∃ device,
      initMemoryManagement localMem globalMem machine = .ok (some device) := by
  obtain ⟨region, hregion, _⟩ := initMemRegion_setUp localMem
    (localAs.1.start.setWidth 64) ((localSize localAs privateAs).signExtend 64)
  obtain ⟨region', hregion', _⟩ := initMemRegion_setUp globalMem
    (globalAs.1.start.setWidth 64 + unallocatedGlobalSpace.signExtend 64)
    ((globalSize localAs globalAs).signExtend 64)
  unfold initMemoryManagement
  rw [hfound]
  dsimp only
  rw [if_neg hlocal, if_neg hglobal, hregion, hregion']
  exact ⟨_, rfl⟩

theorem toNat_globalStart (globalAs : AddressSpace × ℕ) :
    (globalAs.1.start.setWidth 64 + unallocatedGlobalSpace.signExtend 64).toNat =
      globalAs.1.start.toNat + unallocatedGlobalSpace.toNat := by
  have hstart := globalAs.1.start.isLt
  have hreserved : (unallocatedGlobalSpace.signExtend 64).toNat = 16384 := by decide
  have hreserved' : unallocatedGlobalSpace.toNat = 16384 := rfl
  rw [BitVec.toNat_add, BitVec.toNat_setWidth, hreserved, hreserved']
  omega

variable {localAs privateAs globalAs : AddressSpace × ℕ}

theorem Initialized.held
    (hinit : Initialized machine device localAs privateAs globalAs) :
    Held localAs privateAs globalAs device.initial := by
  constructor
  · have hcontained := hinit.localMem.contained
    have hstart := localAs.1.start.isLt
    rw [toNat_signExtend_size hinit.localSize_nonneg, BitVec.toNat_setWidth,
      Nat.mod_eq_of_lt (by omega)] at hcontained
    exact ⟨_, _, hcontained, nofun⟩
  · have hcontained := hinit.globalMem.contained
    rw [toNat_signExtend_size hinit.globalSize_nonneg, toNat_globalStart] at hcontained
    exact ⟨_, _, hcontained, nofun⟩

theorem Initialized.reachable
    (hcount : 2 < n) (hinit : Initialized machine device localAs privateAs globalAs)
    {state : State n} (hreach : Reachable Judged device.initial state) :
    Held localAs privateAs globalAs state := by
  induction hreach with
  | refl => exact hinit.held
  | step hreach hadmissible hpermitted hstep ih =>
      exact ih.step hcount hinit.localSize_nonneg hinit.globalSize_nonneg hadmissible
        hpermitted hstep

/-- If the global region does not fit, a buffer for all of it reaches beyond the
space. -/
theorem Initialized.exists_outside
    (hcount : 2 < n) (hinit : Initialized machine device localAs privateAs globalAs)
    (hnot : ¬GlobalFits localAs globalAs) :
    ∃ state, Reachable Judged device.initial state ∧
      ¬Inside (globalAs.1.start.toNat + unallocatedGlobalSpace.toNat)
        globalAs.1.finish.toNat state.globalMem := by
  rw [globalFits_iff hinit.globalSize_nonneg, not_or, not_le, not_le] at hnot
  obtain ⟨hbeyond, hroom⟩ := hnot
  have hsmall := toNat_lt_of_nonneg hinit.globalSize_nonneg
  have hstart := globalAs.1.start.isLt
  have hreserved : unallocatedGlobalSpace.toNat = 16384 := rfl
  have hend : globalEnd localAs globalAs =
      globalAs.1.start.toNat + unallocatedGlobalSpace.toNat +
        (globalSize localAs globalAs).toNat := rfl
  have hcontained := hinit.globalMem.contained
  rw [toNat_signExtend_size hinit.globalSize_nonneg, toNat_globalStart, ← hend]
    at hcontained
  set aligned := alignUp 6 (globalAs.1.start.toNat + unallocatedGlobalSpace.toNat)
    with haligned
  let size : BitVec 64 := BitVec.ofNat 64 (globalEnd localAs globalAs - aligned)
  have hsize : size.toNat = globalEnd localAs globalAs - aligned := by
    rw [BitVec.toNat_ofNat]
    exact Nat.mod_eq_of_lt (by omega)
  have hsentinel := hinit.globalMem.sentinel_eq
  have hfirst : (device.globalMem.allChunks device.globalMem.lastChunk).first =
      globalAs.1.start.toNat + unallocatedGlobalSpace.toNat := by
    rw [hinit.globalMem.last_eq, hsentinel]
    exact toNat_globalStart globalAs
  have hfinish : (device.globalMem.allChunks device.globalMem.lastChunk).finish =
      globalEnd localAs globalAs := by
    rw [hinit.globalMem.last_eq, hsentinel, ChunkInfo.finish, toNat_globalStart,
      toNat_signExtend_size hinit.globalSize_nonneg, hend]
  have hfits : Fits 6 (device.globalMem.allChunks device.globalMem.lastChunk) size := by
    rw [Fits, hfirst, hfinish, hsize, ← haligned]
    omega
  -- The request takes all of the sentinel.
  have hlooks :
      LooksFitting 6 (device.globalMem.allChunks device.globalMem.lastChunk) size := by
    have hslack : slackOf 6
        (device.globalMem.allChunks device.globalMem.lastChunk).startAddress
        (device.globalMem.allChunks device.globalMem.lastChunk).size size = 0 := by
      unfold slackOf
      unfold ChunkInfo.first at hfirst
      unfold ChunkInfo.finish at hfinish
      rw [hfinish, hfirst, hsize, ← haligned]
      omega
    rw [LooksFitting, hslack]
    decide
  have haccepts : Accepts device.globalMem size device.globalMem.lastChunk :=
    (accepts_iff_emod (by decide) hinit.globalMem.alignment_eq).mpr hlooks
  obtain ⟨fresh, rest, hpool⟩ : ∃ fresh rest, (List.finRange n).drop 1 = fresh :: rest := by
    refine List.exists_cons_of_ne_nil fun hnil => ?_
    have hlength := congrArg List.length hnil
    rw [List.length_drop, List.length_finRange, List.length_nil] at hlength
    omega
  have hrecords : [0] = [] ++ [device.globalMem.lastChunk] := by
    rw [hinit.globalMem.last_eq]
    rfl
  rw [hpool, hrecords] at hcontained
  have hchained := hcontained.linked.chained (by simp)
  obtain ⟨region', happend, hplaced, hlists⟩ := hchained.appendNewChunk_some haccepts
  obtain ⟨_, hfreshFirst, _⟩ := hcontained.place (by decide) (by omega) (by omega)
    haccepts hfits hplaced hlists
  have halloc : device.globalMem.allocBufferFromRegion size =
      some (region', some fresh) := by
    rw [MemoryRegion.allocBufferFromRegion, hinit.globalMem.strategy_eq]
    simp [happend]
  have hfree : device.globalMem.freeChunks ≠ none := by
    rw [Ne, hchained.freeChunks_eq_none_iff]
    exact List.cons_ne_nil _ _
  have hjudged : Judged device.initial (.malloc size) := by
    intro records _
    rw [WellJudged, if_pos ⟨hlooks, hfree⟩]
    exact hfits
  have hstep : step device.initial (.malloc size) =
      some (device.initial.setMemory .globalMem
        { region := region', live := [(fresh, size)] }) := by
    rw [step, allocFrom_eq, AllocatorState.step]
    simp [Device.initial, halloc, AllocatorState.acquire]
  have hadmissible : Admissible device.initial (.malloc size) := trivial
  refine ⟨_, .step .refl hadmissible hjudged hstep, fun hinside => ?_⟩
  have hbytes := hinside (fresh, size) List.mem_cons_self
    (globalEnd localAs globalAs - 1)
  change (region'.allChunks fresh).first ≤ _ →
    _ < (region'.allChunks fresh).first + size.toNat → _ at hbytes
  rw [hfreshFirst, hfirst, hsize, ← haligned] at hbytes
  have hlast := (hbytes (by omega) (by omega)).2
  omega

end Regions

/-- For every machine with which the driver comes up: in all runs in which the fit test
is right, all ranges stay inside the address spaces if and only if the global region
fits. -/
theorem staysInside_iff (localMem globalMem : MemoryRegion maxChunksInRegion)
    (machine : List AddressSpace) (device : Device maxChunksInRegion)
    (hinit : initMemoryManagement localMem globalMem machine = .ok (some device)) :
    ∃ localAs privateAs globalAs,
      findSpaces machine =
          { localAs := some localAs, privateAs := some privateAs,
            globalAs := some globalAs } ∧
        ((∀ state, Reachable Judged device.initial state →
            StaysInside localAs privateAs globalAs state) ↔
          GlobalFits localAs globalAs) := by
  obtain ⟨localAs, privateAs, globalAs, hdevice⟩ := initialized_of_init hinit
  refine ⟨localAs, privateAs, globalAs, hdevice.found, ?_, ?_⟩
  · intro hinside
    by_contra hnot
    obtain ⟨state, hreach, houtside⟩ := hdevice.exists_outside (by decide) hnot
    exact houtside (hinside state hreach).globalMem
  · intro hfits state hreach
    have hheld := hdevice.reachable (by decide) hreach
    exact ⟨hheld.inside_global hdevice.globalSize_nonneg hfits,
      hheld.inside_local hdevice.localSize_nonneg⟩

/-- One megabyte of local memory and 16 of global memory, both from address 0 on. -/
def lowMachine : List AddressSpace :=
  [{ numericalIds := [0, 4], start := 0, finish := 0xFFFFF, start_le := by decide },
    { numericalIds := [3, 5], start := 0, finish := 0xFFFFFF, start_le := by decide }]

theorem lowMachine_staysInside :
    ∃ device localAs privateAs globalAs,
      initMemoryManagement blankRegion blankRegion lowMachine = .ok (some device) ∧
        findSpaces lowMachine =
          { localAs := some localAs, privateAs := some privateAs,
            globalAs := some globalAs } ∧
        ((∀ state, Reachable Judged device.initial state →
            StaysInside localAs privateAs globalAs state) ↔
          GlobalFits localAs globalAs) := by
  obtain ⟨device, hinit⟩ := exists_device blankRegion blankRegion
    (show findSpaces lowMachine = _ from rfl) (by decide) (by decide)
  obtain ⟨localAs, privateAs, globalAs, hfound, hiff⟩ :=
    staysInside_iff blankRegion blankRegion lowMachine device hinit
  exact ⟨device, localAs, privateAs, globalAs, hinit, hfound, hiff⟩

/-- 64 kilobytes of local memory from address 0 on, and one megabyte of global memory
from address `0x100000` on. -/
def splitMachine : List AddressSpace :=
  [{ numericalIds := [0, 4], start := 0, finish := 0xFFFF, start_le := by decide },
    { numericalIds := [3, 5], start := 0x100000, finish := 0x1FFFFF,
      start_le := by decide }]

/-- The buffer lies at the addresses from `0x104000` to `0x283FFF`. -/
theorem splitMachine_outside :
    ∃ device state localAs privateAs globalAs,
      initMemoryManagement blankRegion blankRegion splitMachine = .ok (some device) ∧
        findSpaces splitMachine =
          { localAs := some localAs, privateAs := some privateAs,
            globalAs := some globalAs } ∧
        step device.initial (.malloc 0x180000) = some state ∧
        ¬StaysInside localAs privateAs globalAs state := by
  have heval :
      ((initMemoryManagement blankRegion blankRegion splitMachine).toOption.join.bind
        fun device => (step device.initial (.malloc 0x180000)).map fun state =>
          state.globalMem.live.map fun entry =>
            ((state.globalMem.region.allChunks entry.1).first, entry.2.toNat)) =
        some [(0x104000, 0x180000)] := by
    decide +kernel
  obtain ⟨device, hinit⟩ := exists_device blankRegion blankRegion
    (show findSpaces splitMachine = _ from rfl) (by decide) (by decide)
  rw [hinit] at heval
  obtain ⟨state, hstep, hlive⟩ := Option.map_eq_some_iff.mp heval
  refine ⟨device, state, _, _, _, hinit, rfl, hstep, fun hinside => ?_⟩
  obtain ⟨entry, hentry, hvalues⟩ :
      ∃ entry ∈ state.globalMem.live,
        ((state.globalMem.region.allChunks entry.1).first, entry.2.toNat) =
          (0x104000, 0x180000) := by
    rw [← List.mem_map, hlive]
    exact List.mem_singleton_self _
  obtain ⟨hfirst, hsize⟩ := Prod.mk.inj hvalues
  have hlast := (hinside.globalMem entry hentry 0x200000 (by omega) (by omega)).2
  exact absurd hlast (by decide)

end Pocl.TceMemory
