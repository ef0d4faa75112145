import Pocl.BufallocFitTest

/-!
# The buffers of the pthread driver

`allocate_aligned_buffer` asks the regions the driver has, one after the other.
If none has space it makes a new region, larger than the buffer if that does not
overflow, and takes the buffer from it.

The results of `malloc` for the region record and of `posix_memalign` for the
space come from outside.  The lock brackets the whole function.
-/

namespace Pocl.PthreadBuffers

open Bufalloc

def allocationMultiple : BitVec 64 := 32

def additionalAllocationMaxMB : BitVec 64 := 100

/-- The macros `min` and `max`. -/
def minOf (a b : BitVec 64) : BitVec 64 :=
  if a < b then a else b

def maxOf (a b : BitVec 64) : BitVec 64 :=
  if b < a then a else b

/-- The size of a new region; a sum or a product that overflows is small. -/
def regionSize (size : BitVec 64) : BitVec 64 :=
  maxOf
    (minOf (size + additionalAllocationMaxMB * 1024 * 1024)
      (size * allocationMultiple)) size

/-- What the system hands out: a region record with whatever it held before, and
the two attempts to get space for the region. -/
structure SystemMemory (n : ℕ) where
  record : Option (MemoryRegion n)
  large : Option MemoryAddress
  small : Option MemoryAddress

inductive BufferResult (n : ℕ)
  | outOfMemory (regions : List (MemoryRegion n))
  | assertion
  | allocated (regions : List (MemoryRegion n)) (region : MemoryRegion n)
      (chunk : Fin n)

variable {n : ℕ}

/-- `init_mem_region` and the assignment of the alignment. -/
def newRegion [NeZero n]
    (record : MemoryRegion n) (exponent : ℕ) (space : MemoryAddress)
    (size : BitVec 64) : Option (MemoryRegion n) :=
  (record.initMemRegion space size).map fun region =>
    { region with alignment := alignmentOf exponent }

/-- The space of a new region with its size: that of the large region or, if the
system does not have it, of one for the buffer alone. -/
def regionSpace (memory : SystemMemory n) (size : BitVec 64) :
    Option (MemoryAddress × BitVec 64) :=
  match memory.large with
  | some space => some (space, regionSize size)
  | none => memory.small.map fun space => (space, size)

/-- Allocate a buffer of the given size, aligned to `2 ^ exponent`. -/
def allocateAlignedBuffer [NeZero n]
    (memory : SystemMemory n) (exponent : ℕ) (size : BitVec 64)
    (memRegions : List (MemoryRegion n)) : Option (BufferResult n) := do
  match ← allocBuffer size memRegions with
  | (regions, some (address, chunk)) =>
      let region ← regions.find? fun region => region.address = address
      return .allocated regions region chunk
  | (regions, none) =>
      match memory.record with
      | none => return .outOfMemory regions
      | some record =>
          if regionSize size < size then
            return .assertion
          else
            match regionSpace memory size with
            | none => return .outOfMemory regions
            | some (space, bytes) =>
                let region ← newRegion record exponent space bytes
                match ← region.allocBufferFromRegion size with
                | (_, none) => return .assertion
                | (region, some chunk) =>
                    return .allocated (regions ++ [region]) region chunk

/-- The blocks of `posix_memalign` are aligned. -/
structure SystemMemory.Aligned (memory : SystemMemory n) (exponent : ℕ) :
    Prop where
  large : ∀ space, memory.large = some space → 2 ^ exponent ∣ space.toNat
  small : ∀ space, memory.small = some space → 2 ^ exponent ∣ space.toNat

section RegionSize

variable (size : BitVec 64)

theorem le_regionSize : size.toNat ≤ (regionSize size).toNat := by
  unfold regionSize maxOf
  split
  next hlt => exact Nat.le_of_lt hlt
  next => exact le_refl _

theorem minOf_le_left (a b : BitVec 64) : (minOf a b).toNat ≤ a.toNat := by
  unfold minOf
  split
  next => exact le_refl _
  next hnot => exact not_lt.mp hnot

theorem regionSize_le :
    (regionSize size).toNat ≤ size.toNat + 100 * 1024 * 1024 := by
  have hextra : (additionalAllocationMaxMB * 1024 * 1024).toNat =
      100 * 1024 * 1024 := by
    decide
  have hsum : (size + additionalAllocationMaxMB * 1024 * 1024).toNat ≤
      size.toNat + 100 * 1024 * 1024 := by
    rw [BitVec.toNat_add, hextra]
    exact Nat.mod_le _ _
  unfold regionSize maxOf
  split
  next => exact (minOf_le_left _ _).trans hsum
  next => omega

end RegionSize

theorem bytes_of_regionSpace {memory : SystemMemory n} {exponent : ℕ}
    {space : MemoryAddress} {bytes size : BitVec 64}
    (haligned : memory.Aligned exponent)
    (hspace : regionSpace memory size = some (space, bytes)) :
    2 ^ exponent ∣ space.toNat ∧ (bytes = regionSize size ∨ bytes = size) := by
  unfold regionSpace at hspace
  split at hspace
  next large hlarge =>
    cases hspace
    exact ⟨haligned.large _ hlarge, .inl rfl⟩
  next =>
    obtain ⟨small, hsmall, hpair⟩ := Option.map_eq_some_iff.mp hspace
    cases hpair
    exact ⟨haligned.small _ hsmall, .inr rfl⟩

section NewRegion

variable [NeZero n] {exponent : ℕ} {space : MemoryAddress}
  {bytes size : BitVec 64}

theorem newRegion_setUp
    (record : MemoryRegion n) (exponent : ℕ) (space : MemoryAddress)
    (bytes : BitVec 64) :
    ∃ region,
      newRegion record exponent space bytes = some region ∧
        SetUp region space bytes exponent .wasteful := by
  obtain ⟨region, hinit, hregion⟩ := initMemRegion_setUp record space bytes
  have hnew := hregion.configure exponent .wasteful
  rw [← hregion.strategy_eq] at hnew ⊢
  exact ⟨_, by rw [newRegion, hinit]; rfl, hnew⟩

/-- The first request in a new region of up to `2 ^ 31` bytes more succeeds. -/
theorem newRegion_alloc
    (hn : 1 < n) (hexponent : exponent ≤ 14) {region : MemoryRegion n}
    (hregion : SetUp region space bytes exponent .wasteful)
    (hspace : 2 ^ exponent ∣ space.toNat) (hlower : size.toNat ≤ bytes.toNat)
    (hupper : bytes.toNat < size.toNat + 2 ^ 31) :
    ∃ region' chunk,
      region.allocBufferFromRegion size = some (region', some chunk) ∧
        (region'.allChunks chunk).isAllocated = true ∧
        (region'.allChunks chunk).startAddress = space ∧
        (region'.allChunks chunk).size = size := by
  have hslack : slackOf exponent (region.allChunks region.lastChunk).startAddress
      (region.allChunks region.lastChunk).size size =
        (bytes.toNat : ℤ) - size.toNat := by
    rw [hregion.last_eq, hregion.sentinel_eq, slackOf, alignUp_of_dvd hspace]
    push_cast
    ring
  have haccepts : Accepts region size region.lastChunk := by
    rw [accepts_iff_emod hexponent hregion.alignment_eq, hslack]
    omega
  obtain ⟨region', result, halloc, hallocation⟩ :=
    hregion.chained.allocBufferFromRegion size
  cases hallocation with
  | failed hreuse hfull =>
      -- All records but that of the sentinel are in the pool.
      rcases hfull with hnot | hnone
      · exact (hnot haccepts).elim
      · have hlength := congrArg List.length hnone
        rw [List.length_drop, List.length_finRange, List.length_nil] at hlength
        omega
  | reused chunk hmem htaken =>
      exact (htaken.1 (hregion.last_eq ▸ List.mem_singleton.mp hmem)).elim
  | appended region' fresh front rest hrecords hpool _ _ hplaced hlists =>
      refine ⟨region', fresh, halloc, ?_⟩
      rw [hplaced.fresh_info]
      refine ⟨rfl, ?_, rfl⟩
      have hlast := hregion.last_eq
      simp only [hregion.alignment_eq, hlast, hregion.sentinel_eq]
      exact alignAddress_of_dvd hexponent hspace

/-- A new region of either size has room for the buffer. -/
theorem newRegion_holds
    (hn : 1 < n) (hexponent : exponent ≤ 14) (record : MemoryRegion n)
    (hspace : 2 ^ exponent ∣ space.toNat)
    (hbytes : bytes = regionSize size ∨ bytes = size) :
    ∃ region region' chunk,
      newRegion record exponent space bytes = some region ∧
        region.allocBufferFromRegion size = some (region', some chunk) ∧
        (region'.allChunks chunk).isAllocated = true ∧
        (region'.allChunks chunk).startAddress = space ∧
        (region'.allChunks chunk).size = size := by
  obtain ⟨region, hnew, hregion⟩ := newRegion_setUp record exponent space bytes
  have hlower : size.toNat ≤ bytes.toNat := by
    rcases hbytes with rfl | rfl
    · exact le_regionSize size
    · exact le_refl _
  have hupper : bytes.toNat < size.toNat + 2 ^ 31 := by
    rcases hbytes with rfl | rfl
    · have hle := regionSize_le size
      omega
    · omega
  obtain ⟨region', chunk, hchunk⟩ :=
    newRegion_alloc hn hexponent hregion hspace hlower hupper
  exact ⟨region, region', chunk, hnew, hchunk⟩

/-- Where no region has space, the buffer is put into a new one. -/
theorem allocateAlignedBuffer_allocated
    (hn : 1 < n) (hexponent : exponent ≤ 14) {memory : SystemMemory n}
    (haligned : memory.Aligned exponent) {memRegions regions : List (MemoryRegion n)}
    (hfull : allocBuffer size memRegions = some (regions, none))
    {record : MemoryRegion n} (hrecord : memory.record = some record)
    (hspace : regionSpace memory size = some (space, bytes)) :
    ∃ region chunk,
      allocateAlignedBuffer memory exponent size memRegions =
          some (.allocated (regions ++ [region]) region chunk) ∧
        (region.allChunks chunk).isAllocated = true ∧
        (region.allChunks chunk).startAddress = space ∧
        (region.allChunks chunk).size = size := by
  have hassert : ¬regionSize size < size := not_lt.mpr (le_regionSize size)
  obtain ⟨hdvd, hbytes⟩ := bytes_of_regionSpace haligned hspace
  obtain ⟨region, region', chunk, hnew, halloc, hchunk⟩ :=
    newRegion_holds hn hexponent record hdvd hbytes
  refine ⟨region', chunk, ?_, hchunk⟩
  simp [allocateAlignedBuffer, hfull, hrecord, hassert, hspace, hnew, halloc]

theorem allocateAlignedBuffer_ne_assertion
    (hn : 1 < n) (hexponent : exponent ≤ 14) {memory : SystemMemory n}
    (haligned : memory.Aligned exponent) (memRegions : List (MemoryRegion n)) :
    allocateAlignedBuffer memory exponent size memRegions ≠ some .assertion := by
  have hassert : ¬regionSize size < size := not_lt.mpr (le_regionSize size)
  cases hold : allocBuffer size memRegions with
  | none => simp [allocateAlignedBuffer, hold]
  | some result =>
      obtain ⟨regions, found⟩ := result
      cases found with
      | some chunk =>
          cases hfind : regions.find? fun region => region.address = chunk.1 with
          | none => simp [allocateAlignedBuffer, hold, hfind]
          | some region => simp [allocateAlignedBuffer, hold, hfind]
      | none =>
          cases hrecord : memory.record with
          | none => simp [allocateAlignedBuffer, hold, hrecord]
          | some record =>
              cases hspace : regionSpace memory size with
              | none => simp [allocateAlignedBuffer, hold, hrecord, hspace, hassert]
              | some space =>
                  obtain ⟨region, chunk, hallocated, -⟩ :=
                    allocateAlignedBuffer_allocated hn hexponent haligned hold hrecord hspace
                  rw [hallocated]
                  exact nofun

end NewRegion

/-- A new region is at least as large as the buffer and at most 100 MiB larger,
the buffer is then taken from it, and no assertion of the function fails.  With memory
for a region the function returns a chunk of the size of the buffer. -/
theorem allocateAlignedBuffer_grows
    {exponent : ℕ} (hexponent : exponent ≤ 14) (size : BitVec 64) :
    size.toNat ≤ (regionSize size).toNat ∧
      (regionSize size).toNat ≤
        size.toNat + additionalAllocationMaxMB.toNat * 1024 * 1024 ∧
      (∀ (record : MemoryRegion maxChunksInRegion) (space : MemoryAddress)
          (bytes : BitVec 64),
        2 ^ exponent ∣ space.toNat →
          bytes = regionSize size ∨ bytes = size →
            ∃ region region' chunk,
              newRegion record exponent space bytes = some region ∧
                region.allocBufferFromRegion size =
                  some (region', some chunk) ∧
                (region'.allChunks chunk).isAllocated = true ∧
                (region'.allChunks chunk).startAddress = space ∧
                (region'.allChunks chunk).size = size) ∧
      (∀ (memory : SystemMemory maxChunksInRegion)
          (memRegions : List (MemoryRegion maxChunksInRegion)),
        memory.Aligned exponent →
          allocateAlignedBuffer memory exponent size memRegions ≠
            some .assertion) ∧
      ∀ (memory : SystemMemory maxChunksInRegion)
          (memRegions regions : List (MemoryRegion maxChunksInRegion))
          (record : MemoryRegion maxChunksInRegion) (space : MemoryAddress)
          (bytes : BitVec 64),
        memory.Aligned exponent → allocBuffer size memRegions = some (regions, none) →
          memory.record = some record → regionSpace memory size = some (space, bytes) →
            ∃ region chunk,
              allocateAlignedBuffer memory exponent size memRegions =
                  some (.allocated (regions ++ [region]) region chunk) ∧
                (region.allChunks chunk).isAllocated = true ∧
                (region.allChunks chunk).startAddress = space ∧
                (region.allChunks chunk).size = size := by
  have hn : 1 < maxChunksInRegion := by decide
  refine ⟨le_regionSize size, regionSize_le size, ?_, ?_, ?_⟩
  · intro record space bytes hspace hbytes
    exact newRegion_holds hn hexponent record hspace hbytes
  · intro memory memRegions haligned
    exact allocateAlignedBuffer_ne_assertion hn hexponent haligned memRegions
  · intro memory memRegions regions record space bytes haligned hfull hrecord hspace
    exact allocateAlignedBuffer_allocated hn hexponent haligned hfull hrecord hspace

theorem smallBuffer_grows :
    regionSize 1000 = 32000 ∧
      ∃ region region' chunk,
        newRegion blankRegion 7 4096 32000 = some region ∧
          region.allocBufferFromRegion 1000 = some (region', some chunk) ∧
          (region'.allChunks chunk).isAllocated = true ∧
          (region'.allChunks chunk).startAddress = 4096 ∧
          (region'.allChunks chunk).size = 1000 :=
  ⟨by decide, (allocateAlignedBuffer_grows (by decide) 1000).2.2.1
    blankRegion 4096 32000 (by decide) (.inl (by decide))⟩

end Pocl.PthreadBuffers
