import Pocl.BufallocFitTest

/-!
# Failing allocations

A request is refused if the fit test refuses it for every unallocated chunk before
the sentinel, and for the sentinel or because no record is left.  Both strategies
ask the same chunks, in another order.  In a region below `2 ^ 31` bytes a request
that fits is never refused, but one that does not fit may look as if it did.
-/

namespace Pocl.Bufalloc

variable {n : ℕ}

/-- No unallocated chunk before the sentinel holds the request at its start, and
the sentinel does not hold it after alignment or there is no record for it. -/
structure NothingFits
    (exponent : ℕ) (region : MemoryRegion n) (records : List (Fin n))
    (size : BitVec 64) : Prop where
  reuse : ∀ chunk ∈ records, ¬Reusable region size chunk
  append : ¬Fits exponent (region.allChunks region.lastChunk) size ∨
    region.freeChunks = none

def withStrategy (region : MemoryRegion n) (strategy : AllocationStrategy) :
    MemoryRegion n :=
  { region with strategy := strategy }

/-- Under either strategy a request gets no chunk exactly when nothing fits, and
then the region stays as it is. -/
structure FailsOnlyWhenFull
    (exponent : ℕ) (region : MemoryRegion n) (records : List (Fin n))
    (size : BitVec 64) : Prop where
  returns : ∀ strategy,
    ∃ region' result,
      (withStrategy region strategy).allocBufferFromRegion size =
          some (region', result) ∧
        (result = none ↔ NothingFits exponent region records size)
  same : (∃ region' chunk,
      (withStrategy region .wasteful).allocBufferFromRegion size =
        some (region', some chunk)) ↔
    ∃ region' chunk,
      (withStrategy region .tight).allocBufferFromRegion size =
        some (region', some chunk)
  unchanged : ∀ strategy region',
    (withStrategy region strategy).allocBufferFromRegion size =
        some (region', none) →
      region' = withStrategy region strategy

/-- The slack of the chunk is not negative as an `int`. -/
def LooksFitting (exponent : ℕ) (info : ChunkInfo) (size : BitVec 64) : Prop :=
  slackOf exponent info.startAddress info.size size % 2 ^ 32 < 2 ^ 31

/-- The request fits somewhere, or it does not look as if it did. -/
def RequestJudged
    (exponent : ℕ) (region : MemoryRegion n) (records : List (Fin n))
    (size : BitVec 64) : Prop :=
  (∃ chunk ∈ records, Reusable region size chunk) ∨
    (Fits exponent (region.allChunks region.lastChunk) size ∧
      region.freeChunks ≠ none) ∨
    (∀ chunk ∈ records, chunk ≠ region.lastChunk →
        (region.allChunks chunk).isAllocated = false →
          ¬LooksFitting exponent (region.allChunks chunk) size) ∧
      (region.freeChunks ≠ none →
        ¬LooksFitting exponent (region.allChunks region.lastChunk) size)

namespace Chained

variable {exponent : ℕ} {region : MemoryRegion n} {records pool : List (Fin n)}
  {size : BitVec 64}

theorem withStrategy
    (hchained : Chained region records pool) (strategy : AllocationStrategy) :
    Chained (withStrategy region strategy) records pool :=
  ⟨⟨hchained.lists.chunks_list, hchained.lists.pool_list,
    hchained.lists.disjoint⟩, hchained.last_eq, hchained.last_free,
    hchained.parent⟩

theorem freeChunks_eq_none_iff (hchained : Chained region records pool) :
    region.freeChunks = none ↔ pool = [] := by
  rw [hchained.lists.pool_list.head_eq]
  cases pool with
  | nil => simp
  | cons fresh rest => simp

/-- The fit test refuses the request everywhere. -/
structure Refused
    (region : MemoryRegion n) (records : List (Fin n)) (size : BitVec 64) :
    Prop where
  reuse : ∀ chunk ∈ records, ¬Taken region size chunk
  append : ¬Accepts region size region.lastChunk ∨ region.freeChunks = none

/-- Which requests are refused does not depend on the strategy. -/
theorem allocBufferFromRegion_none_iff
    (hchained : Chained region records pool) (size : BitVec 64)
    (strategy : AllocationStrategy) :
    ∃ region' result,
      (Bufalloc.withStrategy region strategy).allocBufferFromRegion size =
          some (region', result) ∧
        (result = none ↔ Refused region records size) ∧
        (result = none → region' = Bufalloc.withStrategy region strategy) := by
  have hfree := hchained.freeChunks_eq_none_iff
  obtain ⟨region', result, halloc, hallocation⟩ :=
    (hchained.withStrategy strategy).allocBufferFromRegion size
  refine ⟨region', result, halloc, ?_⟩
  cases hallocation with
  | failed hreuse hfull =>
      rw [← hfree] at hfull
      exact ⟨⟨fun _ => ⟨hreuse, hfull⟩, fun _ => rfl⟩, fun _ => rfl⟩
  | reused chunk hmem htaken =>
      refine ⟨⟨nofun, fun hrefused => ?_⟩, nofun⟩
      exact (hrefused.reuse chunk hmem htaken).elim
  | appended region' fresh front rest hrecords hpool haccepts hskipped hplaced hlists =>
      refine ⟨⟨nofun, fun hrefused => ?_⟩, nofun⟩
      rcases hrefused.append with hnot | hnone
      · exact (hnot haccepts).elim
      · rw [hfree, hpool] at hnone
        exact (List.cons_ne_nil _ _ hnone).elim

/-- One request, in terms of the fit test. -/
theorem failsOnlyWhenFull_iff_refused
    (hchained : Chained region records pool) :
    FailsOnlyWhenFull exponent region records size ↔
      (Refused region records size ↔
        NothingFits exponent region records size) := by
  constructor
  · intro hfails
    obtain ⟨region', result, halloc, hnone⟩ := hfails.returns .wasteful
    obtain ⟨region'', result', halloc', hrefused, _⟩ :=
      hchained.allocBufferFromRegion_none_iff size .wasteful
    rw [halloc] at halloc'
    cases halloc'
    rw [← hrefused, hnone]
  · intro hiff
    have hsome : ∀ strategy, (∃ region' chunk,
        (Bufalloc.withStrategy region strategy).allocBufferFromRegion size =
          some (region', some chunk)) ↔ ¬Refused region records size := by
      intro strategy
      obtain ⟨region', result, halloc, hrefused, _⟩ :=
        hchained.allocBufferFromRegion_none_iff size strategy
      rw [← hrefused, halloc]
      cases result with
      | none => simp
      | some chunk => simp
    refine ⟨?_, by rw [hsome, hsome], ?_⟩
    · intro strategy
      obtain ⟨region', result, halloc, hrefused, _⟩ :=
        hchained.allocBufferFromRegion_none_iff size strategy
      exact ⟨region', result, halloc, by rw [hrefused, hiff]⟩
    · intro strategy region' hfail
      obtain ⟨region'', result, halloc, _, hsame⟩ :=
        hchained.allocBufferFromRegion_none_iff size strategy
      rw [hfail] at halloc
      cases halloc
      exact hsame rfl

end Chained

namespace RegionInvariant

variable {bounds : RegionBounds} {region : MemoryRegion n}
  {records pool : List (Fin n)} {size : BitVec 64}

theorem accepts_iff_looksFitting
    (hinv : RegionInvariant bounds region records pool) (chunk : Fin n) :
    Accepts region size chunk ↔
      LooksFitting bounds.exponent (region.allChunks chunk) size :=
  accepts_iff_emod bounds.exponent_le hinv.alignment_eq

theorem accepts_of_fits
    (hinv : RegionInvariant bounds region records pool)
    {chunk : Fin n} (hchunk : chunk ∈ records)
    (hfits : Fits bounds.exponent (region.allChunks chunk) size) :
    Accepts region size chunk :=
  (hinv.accepts_iff hchunk (hfits.trans (Nat.le_add_right _ _))).mpr hfits

theorem taken_of_reusable
    (hinv : RegionInvariant bounds region records pool)
    {chunk : Fin n} (hchunk : chunk ∈ records)
    (hreusable : Reusable region size chunk) :
    Taken region size chunk := by
  obtain ⟨hne, hfree, hsize⟩ := hreusable
  refine ⟨hne, hfree, hinv.accepts_of_fits hchunk ?_⟩
  rw [Fits, alignUp_of_dvd (hinv.layout.aligned chunk hchunk hne)]
  exact Nat.add_le_add_left hsize _

theorem nothingFits_of_refused
    (hinv : RegionInvariant bounds region records pool)
    (hrefused : Chained.Refused region records size) :
    NothingFits bounds.exponent region records size := by
  constructor
  · intro chunk hmem hreusable
    exact hrefused.reuse chunk hmem (hinv.taken_of_reusable hmem hreusable)
  · exact hrefused.append.imp_left
      (mt (hinv.accepts_of_fits hinv.layout.last_mem))

theorem refused_iff_looksFitting
    (hinv : RegionInvariant bounds region records pool) :
    Chained.Refused region records size ↔
      (∀ chunk ∈ records, chunk ≠ region.lastChunk →
          (region.allChunks chunk).isAllocated = false →
            ¬LooksFitting bounds.exponent (region.allChunks chunk) size) ∧
        (region.freeChunks ≠ none →
          ¬LooksFitting bounds.exponent (region.allChunks region.lastChunk) size) := by
  constructor
  · intro hrefused
    refine ⟨?_, ?_⟩
    · intro chunk hmem hne hfree hlooks
      rw [← hinv.accepts_iff_looksFitting] at hlooks
      exact hrefused.reuse chunk hmem ⟨hne, hfree, hlooks⟩
    · intro hsome hlooks
      rw [← hinv.accepts_iff_looksFitting] at hlooks
      rcases hrefused.append with hnot | hnone
      · exact hnot hlooks
      · exact hsome hnone
  · rintro ⟨hreuse, happend⟩
    constructor
    · rintro chunk hmem ⟨hne, hfree, haccepts⟩
      exact hreuse chunk hmem hne hfree
        ((hinv.accepts_iff_looksFitting chunk).mp haccepts)
    · by_cases hnone : region.freeChunks = none
      · exact .inr hnone
      · exact .inl fun haccepts =>
          happend hnone ((hinv.accepts_iff_looksFitting _).mp haccepts)

theorem failsOnlyWhenFull_iff
    (hinv : RegionInvariant bounds region records pool) (size : BitVec 64) :
    FailsOnlyWhenFull bounds.exponent region records size ↔
      RequestJudged bounds.exponent region records size := by
  rw [hinv.chained.failsOnlyWhenFull_iff_refused]
  unfold RequestJudged
  rw [← hinv.refused_iff_looksFitting]
  constructor
  · intro hiff
    by_cases hnothing : NothingFits bounds.exponent region records size
    · exact .inr (.inr (hiff.mpr hnothing))
    · by_cases hreuse : ∃ chunk ∈ records, Reusable region size chunk
      · exact .inl hreuse
      · right
        left
        by_contra hnot
        rw [not_and_or, not_not] at hnot
        exact hnothing
          ⟨fun chunk hmem hreusable => hreuse ⟨chunk, hmem, hreusable⟩, hnot⟩
  · intro hjudged
    refine ⟨hinv.nothingFits_of_refused, ?_⟩
    intro hnothing
    rcases hjudged with ⟨chunk, hmem, hreusable⟩ | ⟨hfits, hsome⟩ | hrefused
    · exact (hnothing.reuse chunk hmem hreusable).elim
    · rcases hnothing.append with hnot | hnone
      · exact (hnot hfits).elim
      · exact (hsome hnone).elim
    · exact hrefused

end RegionInvariant

/-- In every state of a run whose slack computations fit in an `int`, and for
every request, an allocation fails exactly when nothing fits if and only if the
request fits somewhere or does not look as if it did. -/
theorem reachable_failsOnlyWhenFull_iff
    [NeZero n] (blank : MemoryRegion n) (start : MemoryAddress)
    (size : BitVec 64) (exponent : ℕ) (strategy : AllocationStrategy)
    (hpositive : 0 < size.toNat) (hsize : size.toNat < 2 ^ 31)
    (hfinish : start.toNat + size.toNat < 2 ^ 64) (hexponent : exponent ≤ 14) :
    ∃ region,
      setUpRegion blank start size exponent strategy = some region ∧
        ∀ state,
          AllocatorState.Reachable
              (fun state call => state.SlackFits exponent call)
              { region := region, live := [] } state →
            ∃ records,
              IsDList state.region.links state.region.chunks records ∧
                ∀ request,
                  FailsOnlyWhenFull exponent state.region records request ↔
                    RequestJudged exponent state.region records request := by
  obtain ⟨region, hsetUp, hinitial⟩ :=
    setUpRegion_state blank start size exponent strategy hpositive hsize hfinish
      hexponent
  refine ⟨region, hsetUp, ?_⟩
  intro state hreach
  obtain ⟨records, pool, hinv⟩ :=
    reachable_invariant (fun _ _ hfits => hfits) hinitial hreach
  exact ⟨records, hinv.region.lists.chunks_list,
    fun request => hinv.region.failsOnlyWhenFull_iff request⟩

theorem page_failsOnlyWhenFull_iff :
    ∃ region,
      setUpRegion blankRegion 64 4096 6 .tight = some region ∧
        ∀ state,
          AllocatorState.Reachable (fun state call => state.SlackFits 6 call)
              { region := region, live := [] } state →
            ∃ records,
              IsDList state.region.links state.region.chunks records ∧
                ∀ request,
                  FailsOnlyWhenFull 6 state.region records request ↔
                    RequestJudged 6 state.region records request :=
  reachable_failsOnlyWhenFull_iff blankRegion 64 4096 6 .tight (by decide)
    (by decide) (by decide) (by decide)

/-- A region of one page hands out a chunk for a request of `2 ^ 32 + 1` bytes. -/
theorem page_not_failsOnlyWhenFull :
    ∃ region,
      setUpRegion blankRegion 64 4096 6 .wasteful = some region ∧
        ∀ records, IsDList region.links region.chunks records →
          ¬FailsOnlyWhenFull 6 region records 4294967297 := by
  obtain ⟨region, hsetUp, hregion⟩ :=
    setUpRegion_setUp blankRegion 64 4096 6 .wasteful
  refine ⟨region, hsetUp, ?_⟩
  intro records hlist hfails
  obtain rfl := hlist.unique hregion.chained.lists.chunks_list
  have hlast := hregion.last_eq
  have hnothing : NothingFits 6 region [0] 4294967297 := by
    constructor
    · intro chunk hmem hreusable
      exact hreusable.1 (hlast ▸ List.mem_singleton.mp hmem)
    · left
      rw [hlast, hregion.sentinel_eq]
      change ¬alignUp 6 (64 : BitVec 64).toNat + (4294967297 : BitVec 64).toNat ≤
        (64 : BitVec 64).toNat + (4096 : BitVec 64).toNat
      decide
  have hrefused := (hregion.chained.failsOnlyWhenFull_iff_refused.mp hfails).mpr
    hnothing
  rcases hrefused.append with hnot | hnone
  · apply hnot
    rw [Accepts, MemoryRegion.slackBits, hregion.alignment_eq, hlast,
      hregion.sentinel_eq]
    change 0 ≤ ((64 + 4096 - (alignAddress (alignmentOf 6) 64 + 4294967297) :
      BitVec 64).setWidth 32).toInt
    decide
  · rw [hregion.chained.freeChunks_eq_none_iff] at hnone
    exact absurd hnone (by decide)

end Pocl.Bufalloc
