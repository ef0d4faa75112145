import Pocl.BufallocFree

/-!
# Runs of the buffer allocator

A client initializes a region, sets its alignment and strategy, and then
allocates and frees in any order.  `AllocatorState` pairs the region with the
chunks the client holds; `Reachable` collects the states of all runs.  The main
results are the safety of every run and the maximal merging after every free.
-/

namespace Pocl.Bufalloc

variable {n : ℕ}

/-! ## The region after initialization -/

theorem HasLists.foldlM_appendToFreeChunks
    {region : MemoryRegion n} {records pool : List (Fin n)}
    (hlists : HasLists region records pool)
    (fresh : List (Fin n)) (hnodup : fresh.Nodup)
    (hrecords : ∀ chunk ∈ fresh, chunk ∉ records)
    (hpool : ∀ chunk ∈ fresh, chunk ∉ pool) :
    ∃ links freeChunks,
      fresh.foldlM MemoryRegion.appendToFreeChunks region =
          some { region with links := links, freeChunks := freeChunks } ∧
        HasLists { region with links := links, freeChunks := freeChunks }
          records (pool ++ fresh) := by
  induction fresh generalizing region pool with
  | nil => exact ⟨region.links, region.freeChunks, rfl, by simpa using hlists⟩
  | cons chunk rest ih =>
      obtain ⟨links₁, free₁, happend, hlists₁⟩ :=
        hlists.appendToFreeChunks (hrecords chunk (by simp)) (hpool chunk (by simp))
      obtain ⟨hchunk, hrest⟩ := List.nodup_cons.mp hnodup
      obtain ⟨links₂, free₂, hfold, hlists₂⟩ :=
        ih hlists₁ hrest (fun other hmem => hrecords other (by simp [hmem])) (by
          intro other hmem hother
          rcases List.mem_append.mp hother with hold | hnew
          · exact hpool other (by simp [hmem]) hold
          · rw [List.mem_singleton] at hnew
            exact hchunk (hnew ▸ hmem))
      refine ⟨links₂, free₂, ?_, ?_⟩
      · rw [List.foldlM_cons, happend]
        exact hfold
      · simpa using hlists₂

theorem mem_drop_finRange [NeZero n] (chunk : Fin n) :
    chunk ∈ (List.finRange n).drop 1 ↔ chunk ≠ 0 := by
  obtain ⟨m, rfl⟩ := Nat.exists_eq_succ_of_ne_zero (NeZero.ne n)
  rw [List.finRange_succ, List.drop_one, List.tail_cons, List.mem_map]
  constructor
  · rintro ⟨index, _, rfl⟩
    exact Fin.succ_ne_zero index
  · intro hne
    exact ⟨chunk.pred hne, List.mem_finRange _, Fin.succ_pred chunk hne⟩

/-- Initialize a region and set its alignment and strategy. -/
def setUpRegion
    [NeZero n] (region : MemoryRegion n) (start : MemoryAddress)
    (size : BitVec 64) (exponent : ℕ) (strategy : AllocationStrategy) :
    Option (MemoryRegion n) :=
  (region.initMemRegion start size).map fun region =>
    { region with alignment := alignmentOf exponent, strategy := strategy }

/-- A region with the sentinel as its only chunk. -/
structure SetUp
    [NeZero n] (region : MemoryRegion n) (start : MemoryAddress)
    (size : BitVec 64) (exponent : ℕ) (strategy : AllocationStrategy) :
    Prop where
  alignment_eq : region.alignment = alignmentOf exponent
  strategy_eq : region.strategy = strategy
  last_eq : region.lastChunk = 0
  sentinel_eq : region.allChunks 0 =
    { startAddress := start
      size := size
      isAllocated := false
      parentRegion := some region.address }
  chained : Chained region [0] ((List.finRange n).drop 1)

theorem initMemRegion_setUp
    [NeZero n] (blank : MemoryRegion n) (start : MemoryAddress)
    (size : BitVec 64) :
    ∃ region,
      blank.initMemRegion start size = some region ∧
        SetUp region start size 6 .wasteful := by
  let sentinel : ChunkInfo :=
    { startAddress := start
      size := size
      isAllocated := false
      parentRegion := some blank.address }
  let region₀ : MemoryRegion n :=
    ({ blank with
      strategy := .wasteful
      chunks := none
      freeChunks := none
      alignment := 64
      lastChunk := 0 } : MemoryRegion n).setChunk 0 sentinel
  have hlists₀ : HasLists region₀ [] [] :=
    ⟨IsDList.nil _, IsDList.nil _, List.disjoint_nil_left _⟩
  obtain ⟨links₁, chunks₁, happend, hlists₁⟩ :=
    hlists₀.appendToChunks (List.not_mem_nil) (List.not_mem_nil)
  obtain ⟨links₂, free₂, hfold, hlists₂⟩ :=
    hlists₁.foldlM_appendToFreeChunks ((List.finRange n).drop 1)
      ((List.nodup_finRange n).sublist (List.drop_sublist _ _))
      (by
        intro chunk hmem
        simpa using (mem_drop_finRange chunk).mp hmem)
      (fun _ _ => List.not_mem_nil)
  have hsentinel : region₀.allChunks 0 = sentinel := MemoryRegion.setChunk_self _ _ _
  refine ⟨{ region₀ with
      links := links₂
      chunks := chunks₁
      freeChunks := free₂ }, ?_, rfl, rfl, rfl, hsentinel, hlists₂, rfl, ?_, ?_⟩
  · rw [MemoryRegion.initMemRegion]
    change (region₀.appendToChunks 0).bind _ = _
    rw [happend]
    exact hfold
  · change (region₀.allChunks 0).isAllocated = false
    rw [hsentinel]
  · intro chunk hmem
    rw [List.mem_singleton] at hmem
    rw [hmem]
    change (region₀.allChunks 0).parentRegion = _
    rw [hsentinel]
    rfl

theorem SetUp.configure
    [NeZero n] {region : MemoryRegion n} {start : MemoryAddress}
    {size : BitVec 64} {exponent : ℕ} {strategy : AllocationStrategy}
    (hregion : SetUp region start size exponent strategy) (exponent' : ℕ)
    (strategy' : AllocationStrategy) :
    SetUp
      { region with alignment := alignmentOf exponent', strategy := strategy' }
      start size exponent' strategy' :=
  ⟨rfl, rfl, hregion.last_eq, hregion.sentinel_eq,
    ⟨hregion.chained.lists.chunks_list, hregion.chained.lists.pool_list,
      hregion.chained.lists.disjoint⟩,
    hregion.chained.last_eq, hregion.chained.last_free, hregion.chained.parent⟩

theorem setUpRegion_setUp
    [NeZero n] (blank : MemoryRegion n) (start : MemoryAddress)
    (size : BitVec 64) (exponent : ℕ) (strategy : AllocationStrategy) :
    ∃ region,
      setUpRegion blank start size exponent strategy = some region ∧
        SetUp region start size exponent strategy := by
  obtain ⟨region, hinit, hregion⟩ := initMemRegion_setUp blank start size
  exact ⟨_, by rw [setUpRegion, hinit]; rfl, hregion.configure exponent strategy⟩

/-- The byte range and alignment of a region that was set up. -/
def regionBounds
    (start : MemoryAddress) (size : BitVec 64) (exponent : ℕ)
    (hpositive : 0 < size.toNat) (hsize : size.toNat < 2 ^ 31)
    (hfinish : start.toNat + size.toNat < 2 ^ 64) (hexponent : exponent ≤ 14) :
    RegionBounds where
  start := start.toNat
  finish := start.toNat + size.toNat
  exponent := exponent
  start_lt_finish := by omega
  finish_lt := hfinish
  size_lt := by omega
  exponent_le := hexponent

theorem setUpRegion_invariant
    [NeZero n] (blank : MemoryRegion n) (start : MemoryAddress)
    (size : BitVec 64) (exponent : ℕ) (strategy : AllocationStrategy)
    (hpositive : 0 < size.toNat) (hsize : size.toNat < 2 ^ 31)
    (hfinish : start.toNat + size.toNat < 2 ^ 64) (hexponent : exponent ≤ 14) :
    ∃ region,
      setUpRegion blank start size exponent strategy = some region ∧
        RegionInvariant
          (regionBounds start size exponent hpositive hsize hfinish hexponent)
          region [0] ((List.finRange n).drop 1) ∧
        (region.allChunks 0).isAllocated = false := by
  obtain ⟨region, hsetUp, hregion⟩ :=
    setUpRegion_setUp blank start size exponent strategy
  have hsentinel := hregion.sentinel_eq
  have hlast := hregion.last_eq
  refine ⟨region, hsetUp, ⟨hregion.alignment_eq, hregion.chained.lists, ?_, ?_⟩,
    by rw [hsentinel]⟩
  · refine ⟨by simp, hregion.chained.last_eq, hregion.chained.last_free, ?_,
      hregion.chained.parent, by simp, ?_, ?_, ?_, ?_⟩
    · rw [hlast, hsentinel]
      rfl
    · intro chunk hmem hne
      exact (hne (hlast ▸ List.mem_singleton.mp hmem)).elim
    · intro chunk hmem hne
      exact (hne (hlast ▸ List.mem_singleton.mp hmem)).elim
    · intro chunk hmem
      rw [List.mem_singleton] at hmem
      rw [hmem, hsentinel]
      exact le_refl _
    · intro chunk _
      right
      refine ⟨by rw [hlast], ?_⟩
      rw [hlast, hsentinel]
      rfl
  · intro chunk
    by_cases heq : chunk = 0
    · left
      simp [heq]
    · right
      exact (mem_drop_finRange chunk).mpr heq

/-! ## Clients -/

/-- A region together with the chunks its client holds and the sizes it asked
for. -/
structure AllocatorState (n : ℕ) where
  region : MemoryRegion n
  live : List (Fin n × BitVec 64)

/-- The calls of a client.  `free_buffer` gets the start address of the chunk. -/
inductive AllocatorCall (n : ℕ) where
  | alloc (size : BitVec 64)
  | freeBuffer (order : ArgumentOrder) (chunk : Fin n)
  | freeChunk (order : ArgumentOrder) (chunk : Fin n)

def AllocatorCall.freedChunk? : AllocatorCall n → Option (ArgumentOrder × Fin n)
  | .alloc _ => none
  | .freeBuffer order chunk => some (order, chunk)
  | .freeChunk order chunk => some (order, chunk)

namespace AllocatorState

def liveChunks (state : AllocatorState n) : List (Fin n) :=
  state.live.map Prod.fst

/-- The client records what an allocation returned. -/
def acquire
    (state : AllocatorState n) (region : MemoryRegion n) (size : BitVec 64) :
    Option (Fin n) → AllocatorState n
  | some chunk => { region := region, live := (chunk, size) :: state.live }
  | none => { region := region, live := state.live }

@[simp] theorem acquire_region
    (state : AllocatorState n) (region : MemoryRegion n) (size : BitVec 64)
    (result : Option (Fin n)) :
    (state.acquire region size result).region = region := by
  cases result <;> rfl

/-- The client forgets a chunk it has freed. -/
def release
    (state : AllocatorState n) (region : MemoryRegion n) (chunk : Fin n) :
    AllocatorState n where
  region := region
  live := state.live.filter fun entry => decide (entry.1 ≠ chunk)

theorem mem_liveChunks_release
    (state : AllocatorState n) (region : MemoryRegion n) (chunk other : Fin n) :
    other ∈ (state.release region chunk).liveChunks ↔
      other ∈ state.liveChunks ∧ other ≠ chunk := by
  simp only [release, liveChunks, List.mem_map, List.mem_filter,
    decide_eq_true_eq]
  constructor
  · rintro ⟨entry, ⟨hentry, hne⟩, rfl⟩
    exact ⟨⟨entry, hentry, rfl⟩, hne⟩
  · rintro ⟨⟨entry, hentry, rfl⟩, hne⟩
    exact ⟨entry, ⟨hentry, hne⟩, rfl⟩

def step (state : AllocatorState n) :
    AllocatorCall n → Option (AllocatorState n)
  | .alloc size =>
      (state.region.allocBufferFromRegion size).map fun result =>
        state.acquire result.1 size result.2
  | .freeBuffer order chunk =>
      match Bufalloc.freeBuffer order
          (state.region.allChunks chunk).startAddress [state.region] with
      | some ([region], some _) => some (state.release region chunk)
      | _ => none
  | .freeChunk order chunk =>
      (state.region.freeChunk order chunk).map fun region =>
        state.release region chunk

/-- If no chunk before it starts at the same address, a chunk can be freed by its
address. -/
theorem freeBuffer_eq_freeChunk
    {state : AllocatorState n} {before after pool : List (Fin n)} {chunk : Fin n}
    (hchained : Chained state.region (before ++ chunk :: after) pool)
    (hfirst : ∀ other ∈ before, (state.region.allChunks other).startAddress ≠
      (state.region.allChunks chunk).startAddress)
    (order : ArgumentOrder) :
    state.step (.freeBuffer order chunk) = state.step (.freeChunk order chunk) := by
  have hsearch := hchained.search_startsAt hfirst
  cases hfree : state.region.freeChunk order chunk <;>
    simp [step, Bufalloc.freeBuffer, hsearch, hfree]

/-- Requests are positive and fit in a non-negative `int`; only live chunks are
freed. -/
def Admissible (state : AllocatorState n) : AllocatorCall n → Prop
  | .alloc size => 0 < size.toNat ∧ size.toNat < 2 ^ 31
  | .freeBuffer _ chunk => chunk ∈ state.liveChunks
  | .freeChunk _ chunk => chunk ∈ state.liveChunks

/-- The slack computation of an allocation does not overflow. -/
def SlackFits (exponent : ℕ) (state : AllocatorState n) :
    AllocatorCall n → Prop
  | .alloc size => RegionInvariant.AllocSlackFits exponent state.region size
  | _ => True

/-- The call frees a chunk between two unallocated ones and evaluates the inner
`coalesce_chunks` first. -/
def LosesNext (state : AllocatorState n) (call : AllocatorCall n) : Prop :=
  ∃ chunk before prev next rest,
    call.freedChunk? = some (.innerCallFirst, chunk) ∧
      IsDList state.region.links state.region.chunks
        (before ++ prev :: chunk :: next :: rest) ∧
      (state.region.allChunks prev).isAllocated = false ∧
      (state.region.allChunks next).isAllocated = false

/-- The states of the runs whose calls are admissible and permitted. -/
inductive Reachable
    (permitted : AllocatorState n → AllocatorCall n → Prop)
    (initial : AllocatorState n) : AllocatorState n → Prop
  | refl : Reachable permitted initial initial
  | step {state state' : AllocatorState n} {call : AllocatorCall n}
      (hreach : Reachable permitted initial state)
      (hadmissible : state.Admissible call)
      (hpermitted : permitted state call)
      (hstep : state.step call = some state') :
      Reachable permitted initial state'

end AllocatorState

/-- The invariant of a run: the client holds exactly the allocated chunks. -/
structure StateInvariant
    (bounds : RegionBounds) (state : AllocatorState n)
    (records pool : List (Fin n)) : Prop where
  region : RegionInvariant bounds state.region records pool
  live_nodup : state.liveChunks.Nodup
  live_iff : ∀ chunk, chunk ∈ state.liveChunks ↔
    chunk ∈ records ∧ (state.region.allChunks chunk).isAllocated = true
  live_size : ∀ entry ∈ state.live,
    entry.2.toNat ≤ (state.region.allChunks entry.1).size.toNat

namespace StateInvariant

variable {bounds : RegionBounds} {state : AllocatorState n}
  {records pool : List (Fin n)}

theorem not_live
    (hinv : StateInvariant bounds state records pool)
    {chunk : Fin n}
    (hchunk : (state.region.allChunks chunk).isAllocated = false ∨
      chunk ∉ records) :
    chunk ∉ state.liveChunks := by
  rw [hinv.live_iff]
  rintro ⟨hmem, halloc⟩
  rcases hchunk with hfree | hnot
  · simp [hfree] at halloc
  · exact hnot hmem

/-- A chunk that becomes allocated is added to the live ones. -/
theorem cons_live
    (hinv : StateInvariant bounds state records pool)
    {region' : MemoryRegion n} {records' pool' : List (Fin n)}
    {chunk : Fin n} {size : BitVec 64}
    (hregion : RegionInvariant bounds region' records' pool')
    (hnew : chunk ∉ state.liveChunks)
    (hrecords : ∀ other, other ∈ records' ↔ other ∈ records ∨ other = chunk)
    (halloc : (region'.allChunks chunk).isAllocated = true)
    (hsize : size.toNat ≤ (region'.allChunks chunk).size.toNat)
    (hflag : ∀ other ∈ records, other ≠ chunk →
      (region'.allChunks other).isAllocated =
        (state.region.allChunks other).isAllocated)
    (hsame : ∀ other ∈ state.liveChunks,
      region'.allChunks other = state.region.allChunks other) :
    StateInvariant bounds
      { region := region', live := (chunk, size) :: state.live }
      records' pool' := by
  refine ⟨hregion, List.nodup_cons.mpr ⟨hnew, hinv.live_nodup⟩, ?_, ?_⟩
  · intro other
    change other ∈ chunk :: state.liveChunks ↔ _
    rw [List.mem_cons, hrecords, hinv.live_iff]
    by_cases heq : other = chunk
    · simp [heq, halloc]
    · constructor
      · rintro (habs | ⟨hmem, hother⟩)
        · exact (heq habs).elim
        · exact ⟨.inl hmem, by rw [hflag other hmem heq]; exact hother⟩
      · rintro ⟨hmem | habs, hother⟩
        · exact .inr ⟨hmem, by rw [← hflag other hmem heq]; exact hother⟩
        · exact (heq habs).elim
  · intro entry hentry
    rcases List.mem_cons.mp hentry with rfl | hold
    · exact hsize
    · rw [hsame entry.1 (List.mem_map_of_mem hold)]
      exact hinv.live_size entry hold

theorem alloc
    (hinv : StateInvariant bounds state records pool)
    {size : BitVec 64}
    (hadmissible : state.Admissible (.alloc size))
    (hfits : state.SlackFits bounds.exponent (.alloc size)) :
    ∃ state' records' pool',
      state.step (.alloc size) = some state' ∧
        StateInvariant bounds state' records' pool' ∧
        (NoFreeNeighbours state.region records →
          NoFreeNeighbours state'.region records') := by
  obtain ⟨region', result, halloc, houtcome⟩ :=
    hinv.region.allocBufferFromRegion_outcome hadmissible.1 hadmissible.2 hfits
  have hstep : state.step (.alloc size) =
      some (state.acquire region' size result) := by
    rw [AllocatorState.step, halloc]
    rfl
  cases houtcome with
  | failed hreuse hfull =>
      exact ⟨_, records, pool, hstep, hinv, fun hchain => hchain⟩
  | reused chunk hmem hreusable =>
      obtain ⟨hneLast, hfree, hsize⟩ := hreusable
      refine ⟨_, records, pool, hstep, ?_, ?_⟩
      · apply hinv.cons_live (hinv.region.setAllocated hneLast true)
          (hinv.not_live (.inl hfree))
        · intro other
          constructor
          · exact .inl
          · rintro (hother | rfl)
            · exact hother
            · exact hmem
        · simp
        · simpa using hsize
        · intro other _ hne
          rw [state.region.setChunk_of_ne hne]
        · intro other hother
          apply state.region.setChunk_of_ne
          rintro rfl
          exact hinv.not_live (.inl hfree) hother
      · intro hchain
        rw [AllocatorState.acquire_region]
        apply List.IsChain.imp _ hchain
        intro a b hab
        by_cases ha : a = chunk
        · left
          simp [ha]
        · by_cases hb : b = chunk
          · right
            simp [hb]
          · rw [state.region.setChunk_of_ne ha, state.region.setChunk_of_ne hb]
            exact hab
  | appended region' fresh rest hpool happended =>
      obtain ⟨front, hrecords, hregion⟩ := happended.invariant
      have hfresh : fresh ∉ records := by
        intro hmem
        exact hinv.region.lists.disjoint hmem (by simp [hpool])
      refine ⟨_, front ++ [fresh, state.region.lastChunk], rest, hstep, ?_, ?_⟩
      · apply hinv.cons_live hregion (hinv.not_live (.inr hfresh))
        · intro other
          simp only [hrecords, List.mem_append, List.mem_cons, List.not_mem_nil,
            or_false]
          tauto
        · exact happended.fresh_allocated
        · rw [happended.fresh_size]
        · intro other hother hne
          by_cases hlast : other = state.region.lastChunk
          · rw [hlast, hinv.region.layout.last_free, ← happended.last_eq]
            exact hregion.layout.last_free
          · rw [happended.same other hne hlast]
        · intro other hother
          apply happended.same
          · rintro rfl
            exact hinv.not_live (.inr hfresh) hother
          · rintro rfl
            exact hinv.not_live (.inl hinv.region.layout.last_free) hother
      · intro hchain
        subst hrecords
        have hfront := (List.isChain_append.mp hchain).1
        have hsame : ∀ other ∈ front,
            region'.allChunks other = state.region.allChunks other := by
          intro other hother
          apply happended.same
          · rintro rfl
            exact hfresh (by simp [hother])
          · rintro rfl
            exact List.disjoint_of_nodup_append hinv.region.layout.nodup hother
              (by simp)
        rw [AllocatorState.acquire_region]
        apply List.isChain_append.mpr
        refine ⟨?_, ?_, ?_⟩
        · apply hfront.imp_of_mem_imp
          intro a b ha hb hab
          rw [hsame a ha, hsame b hb]
          exact hab
        · simp [happended.fresh_allocated]
        · intro a _ b hb
          right
          obtain rfl : fresh = b := by simpa using hb
          exact happended.fresh_allocated

theorem first_lt_first
    (hinv : StateInvariant bounds state records pool)
    {before after : List (Fin n)} {chunk other : Fin n}
    (hrecords : records = before ++ chunk :: after) (hother : other ∈ before) :
    (state.region.allChunks other).first <
      (state.region.allChunks chunk).first := by
  have hmem : other ∈ records := by simp [hrecords, hother]
  have hordered := hinv.region.layout.ordered
  rw [hrecords, List.pairwise_append] at hordered
  have hle := hordered.2.2 other hother chunk (by simp)
  have hne : other ≠ state.region.lastChunk := by
    rintro rfl
    have hnodup := hinv.region.layout.nodup
    have hlast := hinv.region.layout.last_eq
    rw [hrecords] at hnodup hlast
    rw [List.getLast?_append_cons] at hlast
    exact List.disjoint_of_nodup_append hnodup hother
      (List.mem_of_getLast? hlast)
  have hpositive := hinv.region.layout.positive other hmem hne
  unfold ChunkInfo.finish ChunkInfo.first at *
  omega

theorem split_live
    (hinv : StateInvariant bounds state records pool)
    {chunk : Fin n} (hchunk : chunk ∈ state.liveChunks) :
    ∃ before next rest, records = before ++ chunk :: next :: rest := by
  obtain ⟨hmem, halloc⟩ := (hinv.live_iff chunk).mp hchunk
  exact hinv.region.chained.split_allocated hmem halloc

theorem freeBuffer_eq
    (hinv : StateInvariant bounds state records pool)
    {chunk : Fin n} (hchunk : chunk ∈ state.liveChunks) (order : ArgumentOrder) :
    state.step (.freeBuffer order chunk) = state.step (.freeChunk order chunk) := by
  obtain ⟨before, next, rest, hrecords⟩ := hinv.split_live hchunk
  apply AllocatorState.freeBuffer_eq_freeChunk (hrecords ▸ hinv.region.chained)
  intro other hother heq
  have hlt := hinv.first_lt_first hrecords hother
  rw [ChunkInfo.first, ChunkInfo.first, heq] at hlt
  exact lt_irrefl _ hlt

theorem freeChunk
    (hinv : StateInvariant bounds state records pool)
    {chunk : Fin n} (hchunk : chunk ∈ state.liveChunks) (order : ArgumentOrder) :
    ∃ state' records' pool',
      state.step (.freeChunk order chunk) = some state' ∧
        StateInvariant bounds state' records' pool' ∧
        (∀ head, records'.head? = some head →
          (state'.region.allChunks head).first =
            alignUp bounds.exponent bounds.start) ∧
        (¬state.LosesNext (.freeChunk order chunk) →
          NoFreeNeighbours state.region records →
          NoFreeNeighbours state'.region records') := by
  obtain ⟨before, next, rest, rfl⟩ := hinv.split_live hchunk
  obtain ⟨region', records', pool', hfree, hfreed⟩ :=
    hinv.region.freeChunk order
  have hlive : ∀ other, other ≠ chunk → other ∈ state.liveChunks →
      region'.allChunks other = state.region.allChunks other := by
    intro other hne hother
    obtain ⟨hmem, halloc⟩ := (hinv.live_iff other).mp hother
    rw [← state.region.setChunk_of_ne hne] at halloc ⊢
    exact (hfreed.same other).2 hmem halloc
  have hmemLive := state.mem_liveChunks_release region' chunk
  refine ⟨state.release region' chunk, records', pool', ?_,
    ⟨hfreed.invariant, ?_, ?_, ?_⟩, hfreed.head_first, ?_⟩
  · rw [AllocatorState.step, hfree]
    rfl
  · exact hinv.live_nodup.sublist (List.filter_sublist.map Prod.fst)
  · intro other
    rw [hmemLive other, hinv.live_iff]
    change _ ↔ other ∈ records' ∧ (region'.allChunks other).isAllocated = true
    rw [← (hfreed.same other).1]
    by_cases heq : other = chunk
    · subst heq
      simp
    · rw [state.region.setChunk_of_ne heq]
      simp [heq]
  · intro entry hentry
    have hold := List.mem_filter.mp hentry
    have hne : entry.1 ≠ chunk := by simpa using hold.2
    change _ ≤ (region'.allChunks entry.1).size.toNat
    rw [hlive entry.1 hne (List.mem_map_of_mem hold.1)]
    exact hinv.live_size entry hold.1
  · intro hkeeps hchain
    apply hfreed.noFreeNeighbours _ hchain
    rintro ⟨rfl, hnext, prev, hlast, hprev⟩
    obtain ⟨front, hfront⟩ := List.getLast?_eq_some_iff.mp hlast
    subst hfront
    apply hkeeps
    refine ⟨chunk, front, prev, next, rest, rfl, ?_, hprev, hnext⟩
    simpa using hinv.region.lists.chunks_list

/-- One call of a client keeps the invariant, and merging when the next chunk
is not lost. -/
theorem step
    (hinv : StateInvariant bounds state records pool)
    {call : AllocatorCall n} (hadmissible : state.Admissible call)
    (hfits : state.SlackFits bounds.exponent call) :
    ∃ state' records' pool',
      state.step call = some state' ∧
        StateInvariant bounds state' records' pool' ∧
        (call.freedChunk?.isSome → ∀ head, records'.head? = some head →
          (state'.region.allChunks head).first =
            alignUp bounds.exponent bounds.start) ∧
        (¬state.LosesNext call → NoFreeNeighbours state.region records →
          NoFreeNeighbours state'.region records') := by
  cases call with
  | alloc size =>
      obtain ⟨state', records', pool', hstep, hinv', hchain⟩ :=
        hinv.alloc hadmissible hfits
      exact ⟨state', records', pool', hstep, hinv',
        fun hsome => (Bool.false_ne_true hsome).elim, fun _ => hchain⟩
  | freeBuffer order chunk =>
      obtain ⟨state', records', pool', hstep, hinv', hhead, hchain⟩ :=
        hinv.freeChunk hadmissible order
      refine ⟨state', records', pool', ?_, hinv', fun _ => hhead, hchain⟩
      rw [hinv.freeBuffer_eq hadmissible order, hstep]
  | freeChunk order chunk =>
      obtain ⟨state', records', pool', hstep, hinv', hhead, hchain⟩ :=
        hinv.freeChunk hadmissible order
      exact ⟨state', records', pool', hstep, hinv', fun _ => hhead, hchain⟩

end StateInvariant

end Pocl.Bufalloc
