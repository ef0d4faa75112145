import Mathlib.Data.List.FinRange
import Pocl.DoublyLinkedLists

/-!
# The buffer allocator

The chunk allocator of `bufalloc.c`.  A region owns a fixed array of chunk
records which are threaded on two intrusive lists: `chunks`, the chunks of the
region in address order, and `freeChunks`, the records not in use.
`lastChunk` points to the sentinel, the chunk from which new ones are cut.

Addresses and sizes are 64-bit words, the alignment is the `short` of the
record, and `chunkSlack` returns the 32-bit `int` of the source, with the
conversions C inserts.  A step that would follow a null pointer, read a region
pointer that was never set, or fail an `assert` has no result.  The region lock
brackets each operation, so the operations are atomic here.
-/

namespace Pocl.Bufalloc

abbrev MemoryAddress := BitVec 64

/-- The address of a `memory_region` record, its identity. -/
abbrev RegionAddress := ℕ

inductive AllocationStrategy where
  /-- Try to fit to the end of the region first. -/
  | wasteful
  /-- Try to reuse old freed chunks first. -/
  | tight
  deriving DecidableEq, Repr

structure ChunkInfo where
  startAddress : MemoryAddress
  isAllocated : Bool
  size : BitVec 64
  parentRegion : Option RegionAddress
  deriving DecidableEq, Repr

/-- A region whose array holds `n` chunk records (`MAX_CHUNKS_IN_REGION`). -/
structure MemoryRegion (n : ℕ) where
  address : RegionAddress
  allChunks : Fin n → ChunkInfo
  links : Links (Fin n)
  chunks : Option (Fin n)
  freeChunks : Option (Fin n)
  lastChunk : Fin n
  strategy : AllocationStrategy
  alignment : BitVec 16

/-- The default of `MAX_CHUNKS_IN_REGION`. -/
abbrev maxChunksInRegion : ℕ := 64

/-- Round an address up to the alignment, as the `int` expression of the
source does after the integer promotions. -/
def alignAddress (alignment : BitVec 16) (address : MemoryAddress) :
    MemoryAddress :=
  (address + alignment.signExtend 64 - 1) &&&
    (~~~(alignment.signExtend 32 - 1)).signExtend 64

namespace MemoryRegion

variable {n : ℕ}

def setChunk
    (region : MemoryRegion n) (chunk : Fin n) (info : ChunkInfo) :
    MemoryRegion n :=
  { region with allChunks := Function.update region.allChunks chunk info }

@[simp] theorem setChunk_self
    (region : MemoryRegion n) (chunk : Fin n) (info : ChunkInfo) :
    (region.setChunk chunk info).allChunks chunk = info :=
  Function.update_self _ _ _

theorem setChunk_of_ne
    (region : MemoryRegion n) {chunk other : Fin n} (hne : other ≠ chunk)
    (info : ChunkInfo) :
    (region.setChunk chunk info).allChunks other = region.allChunks other :=
  Function.update_of_ne hne _ _

/-- `DL_DELETE (region->chunks, chunk)`. -/
def deleteFromChunks (region : MemoryRegion n) (chunk : Fin n) :
    Option (MemoryRegion n) :=
  (region.links.delete region.chunks chunk).map fun result =>
    { region with links := result.1, chunks := result.2 }

/-- `DL_APPEND (region->chunks, chunk)`. -/
def appendToChunks (region : MemoryRegion n) (chunk : Fin n) :
    Option (MemoryRegion n) :=
  (region.links.append region.chunks chunk).map fun result =>
    { region with links := result.1, chunks := result.2 }

/-- `DL_DELETE (region->free_chunks, chunk)`. -/
def deleteFromFreeChunks (region : MemoryRegion n) (chunk : Fin n) :
    Option (MemoryRegion n) :=
  (region.links.delete region.freeChunks chunk).map fun result =>
    { region with links := result.1, freeChunks := result.2 }

/-- `DL_APPEND (region->free_chunks, chunk)`. -/
def appendToFreeChunks (region : MemoryRegion n) (chunk : Fin n) :
    Option (MemoryRegion n) :=
  (region.links.append region.freeChunks chunk).map fun result =>
    { region with links := result.1, freeChunks := result.2 }

/-- What is left of a chunk after a request, as an `int`. -/
def chunkSlack
    (region : MemoryRegion n) (chunk : Fin n) (size : BitVec 64) :
    Option (BitVec 32) :=
  let info := region.allChunks chunk
  if info.parentRegion = some region.address then
    let alignedStartAddr := alignAddress region.alignment info.startAddress
    some ((info.startAddress + info.size - (alignedStartAddr + size)).setWidth 32)
  else
    none

/-- The second half of `append_new_chunk`: take `newChunk` from the pool and
put it before the sentinel. -/
def placeNewChunk
    (region : MemoryRegion n) (newChunk : Fin n) (size : BitVec 64) :
    Option (MemoryRegion n) := do
  let region ← region.deleteFromFreeChunks newChunk
  let startAddress :=
    alignAddress region.alignment
      (region.allChunks region.lastChunk).startAddress
  let region := region.setChunk newChunk
    { startAddress := startAddress
      isAllocated := true
      size := size
      parentRegion := some region.address }
  let slack ← region.chunkSlack region.lastChunk size
  let region := region.setChunk region.lastChunk
    { region.allChunks region.lastChunk with
      size := slack.signExtend 64
      startAddress := startAddress + size }
  let region ← region.deleteFromChunks region.lastChunk
  let region ← region.appendToChunks newChunk
  region.appendToChunks region.lastChunk

/-- Try to create a new chunk at the end of the region. -/
def appendNewChunk (region : MemoryRegion n) (size : BitVec 64) :
    Option (MemoryRegion n × Option (Fin n)) :=
  if (region.allChunks region.lastChunk).isAllocated = true then
    none
  else do
    let slack ← region.chunkSlack region.lastChunk size
    if slack.toInt < 0 then
      return (region, none)
    else
      match region.freeChunks with
      | none => return (region, none)
      | some newChunk =>
          let region ← region.placeNewChunk newChunk size
          return (region, some newChunk)

/-- The test of the search loop of `alloc_buffer_from_region`. -/
def isReusable
    (region : MemoryRegion n) (size : BitVec 64) (cursor : Fin n) :
    Option Bool :=
  if cursor = region.lastChunk ∨
      (region.allChunks cursor).isAllocated = true then
    some false
  else
    (region.chunkSlack cursor size).map fun slack => decide (0 ≤ slack.toInt)

/-- The traversal of `chunks` in `alloc_buffer_from_region`. -/
def reuseChunk (region : MemoryRegion n) (size : BitVec 64) :
    Option (MemoryRegion n × Option (Fin n)) := do
  match ← region.links.search (region.isReusable size) n region.chunks with
  | none => return (region, none)
  | some cursor =>
      let info := region.allChunks cursor
      return (region.setChunk cursor { info with isAllocated := true },
        some cursor)

/-- Allocate a chunk of the region; no chunk is returned when nothing fits. -/
def allocBufferFromRegion (region : MemoryRegion n) (size : BitVec 64) :
    Option (MemoryRegion n × Option (Fin n)) := do
  match region.strategy with
  | .wasteful =>
      match ← region.appendNewChunk size with
      | (region, some chunk) => return (region, some chunk)
      | (region, none) => region.reuseChunk size
  | .tight =>
      match ← region.reuseChunk size with
      | (region, some chunk) => return (region, some chunk)
      | (region, none) => region.appendNewChunk size

/-- Merge two unallocated chunks; the second record goes back to the pool. -/
def coalesceChunks
    (region : MemoryRegion n) (first second : Option (Fin n)) :
    Option (MemoryRegion n × Option (Fin n)) :=
  match first, second with
  | none, _ => some (region, second)
  | some first, none => some (region, some first)
  | some first, some second =>
      let firstInfo := region.allChunks first
      let secondInfo := region.allChunks second
      if firstInfo.isAllocated = true ∨ secondInfo.isAllocated = true then
        some (region, some second)
      -- The head of the list has the sentinel as its `prev`.
      else if secondInfo.startAddress < firstInfo.startAddress then
        some (region, some second)
      else if firstInfo.parentRegion = some region.address ∧
          secondInfo.parentRegion = some region.address then do
        let region := region.setChunk first
          { firstInfo with
            size := secondInfo.startAddress + secondInfo.size -
              firstInfo.startAddress }
        let region ← region.deleteFromChunks second
        let region ← region.appendToFreeChunks second
        let region :=
          if region.lastChunk = second then
            { region with lastChunk := first }
          else region
        return (region, some first)
      else
        none

end MemoryRegion

/-- C leaves open whether the second argument of the outer
`coalesce_chunks (coalesce_chunks (chunk->prev, chunk), chunk->next)` is read
before or after the inner call. -/
inductive ArgumentOrder where
  | nextFirst
  | innerCallFirst
  deriving DecidableEq, Repr

namespace MemoryRegion

variable {n : ℕ}

/-- `free_chunk`, and the body of the search loop of `free_buffer`. -/
def freeChunk
    (order : ArgumentOrder) (region : MemoryRegion n) (chunk : Fin n) :
    Option (MemoryRegion n) := do
  let region := region.setChunk chunk
    { region.allChunks chunk with isAllocated := false }
  match order with
  | .nextFirst =>
      let next := region.links.next chunk
      let (region, merged) ←
        region.coalesceChunks (region.links.prev chunk) (some chunk)
      let (region, _) ← region.coalesceChunks merged next
      return region
  | .innerCallFirst =>
      let (region, merged) ←
        region.coalesceChunks (region.links.prev chunk) (some chunk)
      let (region, _) ← region.coalesceChunks merged (region.links.next chunk)
      return region

/-- The test of the search loop of `free_buffer`. -/
def startsAt
    (region : MemoryRegion n) (address : MemoryAddress) (cursor : Fin n) :
    Option Bool :=
  some (decide ((region.allChunks cursor).startAddress = address))

/-- Initialize a region on `[start, start + size)`.  Whatever the record held
before is overwritten, except for the unused chunk records. -/
def initMemRegion
    [NeZero n] (region : MemoryRegion n)
    (start : MemoryAddress) (size : BitVec 64) :
    Option (MemoryRegion n) := do
  let region : MemoryRegion n :=
    { region with
      strategy := .wasteful
      chunks := none
      freeChunks := none
      alignment := 64
      lastChunk := 0 }
  let region := region.setChunk 0
    { startAddress := start
      size := size
      isAllocated := false
      parentRegion := some region.address }
  let region ← region.appendToChunks 0
  ((List.finRange n).drop 1).foldlM appendToFreeChunks region

end MemoryRegion

/-- Allocate from the first region of the list that has space. -/
def allocBuffer {n : ℕ} (size : BitVec 64) :
    List (MemoryRegion n) →
      Option (List (MemoryRegion n) × Option (RegionAddress × Fin n))
  | [] => some ([], none)
  | region :: regions => do
      match ← region.allocBufferFromRegion size with
      | (region, some chunk) =>
          return (region :: regions, some (region.address, chunk))
      | (region, none) =>
          let (regions, chunk) ← allocBuffer size regions
          return (region :: regions, chunk)

/-- Free the chunk that starts at the address, in the first region that has
one; the region is returned. -/
def freeBuffer {n : ℕ} (order : ArgumentOrder) (address : MemoryAddress) :
    List (MemoryRegion n) →
      Option (List (MemoryRegion n) × Option RegionAddress)
  | [] => some ([], none)
  | region :: regions => do
      match ← region.links.search (region.startsAt address) n region.chunks with
      | some chunk =>
          let region ← region.freeChunk order chunk
          return (region :: regions, some region.address)
      | none =>
          let (regions, found) ← freeBuffer order address regions
          return (region :: regions, found)

end Pocl.Bufalloc
