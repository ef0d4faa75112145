import Pocl.BufallocRuns

/-!
# Safety and merging over whole runs

Every run of a client whose slack computations fit in an `int` keeps the chunk
list sorted and disjoint, the sentinel unallocated at its end, and the live
allocations apart.  The bound is needed: `chunkSlack` truncates, and a request
that overshoots the sentinel by more than `2 ^ 31` is accepted.

Merging after a free is maximal as long as no call evaluates the inner
`coalesce_chunks` first while both neighbours of its chunk are unallocated.
-/

namespace Pocl.Bufalloc

variable {n : ℕ}

def ChunkInfo.Covers (info : ChunkInfo) (byte : ℕ) : Prop :=
  info.first ≤ byte ∧ byte < info.finish

def ChunkInfo.Apart (a b : ChunkInfo) : Prop :=
  ∀ byte, ¬(a.Covers byte ∧ b.Covers byte)

theorem ChunkInfo.apart_of_finish_le
    {a b : ChunkInfo} (hle : a.finish ≤ b.first) : a.Apart b := by
  rintro byte ⟨ha, hb⟩
  have hlt := ha.2
  have hge := hb.1
  omega

theorem ChunkInfo.Apart.symm {a b : ChunkInfo} (hapart : a.Apart b) :
    b.Apart a := by
  rintro byte ⟨hb, ha⟩
  exact hapart byte ⟨ha, hb⟩

namespace AllocatorState

/-- What a client relies on, for the region `[start, finish)`. -/
structure SafeWith
    (state : AllocatorState n) (start finish : ℕ)
    (records pool : List (Fin n)) : Prop where
  chunks_list : IsDList state.region.links state.region.chunks records
  pool_list : IsDList state.region.links state.region.freeChunks pool
  one_list : ∀ chunk, Xor (chunk ∈ records) (chunk ∈ pool)
  sorted : records.Pairwise fun a b =>
    (state.region.allChunks a).startAddress ≤
      (state.region.allChunks b).startAddress
  disjoint : records.Pairwise fun a b =>
    (state.region.allChunks a).Apart (state.region.allChunks b)
  inside : ∀ chunk ∈ records,
    start ≤ (state.region.allChunks chunk).first ∧
      (state.region.allChunks chunk).finish ≤ finish
  last_tail : records.getLast? = some state.region.lastChunk
  last_free : (state.region.allChunks state.region.lastChunk).isAllocated = false
  last_finish : (state.region.allChunks state.region.lastChunk).finish = finish
  live_chunks : ∀ entry ∈ state.live,
    entry.1 ∈ records ∧
      (state.region.allChunks entry.1).isAllocated = true ∧
      entry.2.toNat ≤ (state.region.allChunks entry.1).size.toNat
  live_apart : state.live.Pairwise fun a b =>
    (state.region.allChunks a.1).Apart (state.region.allChunks b.1)

def Safe (state : AllocatorState n) (start finish : ℕ) : Prop :=
  ∃ records pool, state.SafeWith start finish records pool

/-- No two neighbouring chunks are both unallocated. -/
def FullyMerged (state : AllocatorState n) : Prop :=
  ∃ records,
    IsDList state.region.links state.region.chunks records ∧
      NoFreeNeighbours state.region records

/-- One unallocated chunk from the first aligned address to the end; all other
records are in the pool. -/
def AllMerged
    (state : AllocatorState n) (exponent start finish : ℕ) : Prop :=
  ∃ chunk pool,
    IsDList state.region.links state.region.chunks [chunk] ∧
      IsDList state.region.links state.region.freeChunks pool ∧
      (state.region.allChunks chunk).isAllocated = false ∧
      (state.region.allChunks chunk).first = alignUp exponent start ∧
      (state.region.allChunks chunk).finish = finish ∧
      ∀ other, other ∈ pool ↔ other ≠ chunk

end AllocatorState

namespace StateInvariant

variable {bounds : RegionBounds} {state : AllocatorState n}
  {records pool : List (Fin n)}

theorem records_apart (hinv : StateInvariant bounds state records pool) :
    records.Pairwise fun a b =>
      (state.region.allChunks a).Apart (state.region.allChunks b) :=
  hinv.region.layout.ordered.imp fun hle => ChunkInfo.apart_of_finish_le hle

theorem live_apart (hinv : StateInvariant bounds state records pool) :
    state.live.Pairwise fun a b =>
      (state.region.allChunks a.1).Apart (state.region.allChunks b.1) := by
  have hnodup : state.live.Pairwise fun a b => a.1 ≠ b.1 :=
    List.pairwise_map.mp hinv.live_nodup
  apply hnodup.imp_of_mem
  intro a b ha hb hne
  have haMem := ((hinv.live_iff a.1).mp (List.mem_map_of_mem ha)).1
  have hbMem := ((hinv.live_iff b.1).mp (List.mem_map_of_mem hb)).1
  have hsymm : Std.Symm fun a b : Fin n =>
      (state.region.allChunks a).Apart (state.region.allChunks b) :=
    ⟨fun _ _ hapart => hapart.symm⟩
  exact hinv.records_apart.forall haMem hbMem hne

theorem safe (hinv : StateInvariant bounds state records pool) :
    state.Safe bounds.start bounds.finish := by
  refine ⟨records, pool, hinv.region.lists.chunks_list,
    hinv.region.lists.pool_list, ?_, ?_, hinv.records_apart, ?_,
    hinv.region.layout.last_eq, hinv.region.layout.last_free,
    hinv.region.layout.last_finish, ?_, hinv.live_apart⟩
  · intro chunk
    rcases hinv.region.cover chunk with hmem | hmem
    · exact .inl ⟨hmem, hinv.region.lists.disjoint hmem⟩
    · exact .inr ⟨hmem, fun hrecords => hinv.region.lists.disjoint hrecords hmem⟩
  · apply hinv.region.layout.ordered.imp
    intro a b hle
    exact (Layout.first_le_finish _).trans hle
  · intro chunk hmem
    exact ⟨hinv.region.layout.start_le chunk hmem,
      hinv.region.layout.finish_le hmem⟩
  · intro entry hentry
    obtain ⟨hmem, halloc⟩ :=
      (hinv.live_iff entry.1).mp (List.mem_map_of_mem hentry)
    exact ⟨hmem, halloc, hinv.live_size entry hentry⟩

theorem fullyMerged
    (hinv : StateInvariant bounds state records pool)
    (hchain : NoFreeNeighbours state.region records) :
    state.FullyMerged :=
  ⟨records, hinv.region.lists.chunks_list, hchain⟩

/-- Without live chunks everything has been merged into one. -/
theorem allMerged
    (hinv : StateInvariant bounds state records pool)
    (hchain : NoFreeNeighbours state.region records)
    (hhead : ∀ head, records.head? = some head →
      (state.region.allChunks head).first =
        alignUp bounds.exponent bounds.start)
    (hlive : state.live = []) :
    state.AllMerged bounds.exponent bounds.start bounds.finish := by
  have hfree : ∀ chunk ∈ records,
      ¬(state.region.allChunks chunk).isAllocated = true := by
    intro chunk hmem halloc
    have hmemLive := (hinv.live_iff chunk).mpr ⟨hmem, halloc⟩
    simp [AllocatorState.liveChunks, hlive] at hmemLive
  have hrecords : records = [state.region.lastChunk] := by
    obtain ⟨front, hsplit⟩ := hinv.region.layout.split_last
    rcases List.eq_nil_or_concat front with rfl | ⟨rest, prev, rfl⟩
    · exact hsplit
    · rw [hsplit] at hchain
      have hpair := (List.isChain_append.mp hchain).2.2 prev (by simp)
        state.region.lastChunk rfl
      rcases hpair with hprev | hlast
      · exact (hfree prev (by simp [hsplit]) hprev).elim
      · exact (hfree _ hinv.region.layout.last_mem hlast).elim
  refine ⟨state.region.lastChunk, pool, ?_, hinv.region.lists.pool_list,
    hinv.region.layout.last_free, ?_, hinv.region.layout.last_finish, ?_⟩
  · rw [← hrecords]
    exact hinv.region.lists.chunks_list
  · exact hhead _ (by rw [hrecords]; rfl)
  · intro other
    constructor
    · rintro hmem rfl
      exact hinv.region.lists.disjoint hinv.region.layout.last_mem hmem
    · intro hne
      rcases hinv.region.cover other with hmem | hmem
      · rw [hrecords, List.mem_singleton] at hmem
        exact (hne hmem).elim
      · exact hmem

end StateInvariant

/-! ## Runs -/

theorem reachable_invariant
    {bounds : RegionBounds} {initial state : AllocatorState n}
    {permitted : AllocatorState n → AllocatorCall n → Prop}
    {records pool : List (Fin n)}
    (hfits : ∀ state call, permitted state call →
      state.SlackFits bounds.exponent call)
    (hinitial : StateInvariant bounds initial records pool)
    (hreach : AllocatorState.Reachable permitted initial state) :
    ∃ records pool, StateInvariant bounds state records pool := by
  induction hreach with
  | refl => exact ⟨records, pool, hinitial⟩
  | step hreach hadmissible hpermitted hstep ih =>
      obtain ⟨records, pool, hinv⟩ := ih
      obtain ⟨state', records', pool', hstep', hinv', _⟩ :=
        hinv.step hadmissible (hfits _ _ hpermitted)
      rw [hstep, Option.some.injEq] at hstep'
      subst hstep'
      exact ⟨records', pool', hinv'⟩

theorem reachable_noFreeNeighbours
    {bounds : RegionBounds} {initial state : AllocatorState n}
    {records pool : List (Fin n)}
    (hinitial : StateInvariant bounds initial records pool)
    (hchain : NoFreeNeighbours initial.region records)
    (hreach : AllocatorState.Reachable
      (fun state call =>
        state.SlackFits bounds.exponent call ∧ ¬state.LosesNext call)
      initial state) :
    ∃ records pool,
      StateInvariant bounds state records pool ∧
        NoFreeNeighbours state.region records := by
  induction hreach with
  | refl => exact ⟨records, pool, hinitial, hchain⟩
  | step hreach hadmissible hpermitted hstep ih =>
      obtain ⟨records, pool, hinv, hchain⟩ := ih
      obtain ⟨state', records', pool', hstep', hinv', _, hkeep⟩ :=
        hinv.step hadmissible hpermitted.1
      rw [hstep, Option.some.injEq] at hstep'
      subst hstep'
      exact ⟨records', pool', hinv', hkeep hpermitted.2 hchain⟩

section Runs

variable [NeZero n] (blank : MemoryRegion n) (start : MemoryAddress)
  (size : BitVec 64) (exponent : ℕ) (strategy : AllocationStrategy)

/-- The invariant holds in the initial state of a client. -/
theorem setUpRegion_state
    (hpositive : 0 < size.toNat) (hsize : size.toNat < 2 ^ 31)
    (hfinish : start.toNat + size.toNat < 2 ^ 64) (hexponent : exponent ≤ 14) :
    ∃ region,
      setUpRegion blank start size exponent strategy = some region ∧
        StateInvariant
          (regionBounds start size exponent hpositive hsize hfinish hexponent)
          { region := region, live := [] } [0] ((List.finRange n).drop 1) := by
  obtain ⟨region, hsetUp, hinv, hfree⟩ :=
    setUpRegion_invariant blank start size exponent strategy hpositive hsize
      hfinish hexponent
  refine ⟨region, hsetUp, hinv, List.nodup_nil, ?_, by simp⟩
  intro chunk
  simp only [AllocatorState.liveChunks, List.map_nil, List.not_mem_nil,
    List.mem_singleton, false_iff, not_and]
  rintro rfl
  simp [hfree]

/-- Every run whose slack computations fit in an `int` is safe, and none of its
calls fails an assertion or follows a null pointer. -/
theorem reachable_safe
    (hpositive : 0 < size.toNat) (hsize : size.toNat < 2 ^ 31)
    (hfinish : start.toNat + size.toNat < 2 ^ 64) (hexponent : exponent ≤ 14) :
    ∃ region,
      setUpRegion blank start size exponent strategy = some region ∧
        ∀ state,
          AllocatorState.Reachable
              (fun state call => state.SlackFits exponent call)
              { region := region, live := [] } state →
            state.Safe start.toNat (start.toNat + size.toNat) ∧
              ∀ call, state.Admissible call → state.SlackFits exponent call →
                ∃ state', state.step call = some state' := by
  obtain ⟨region, hsetUp, hinitial⟩ :=
    setUpRegion_state blank start size exponent strategy hpositive hsize hfinish
      hexponent
  refine ⟨region, hsetUp, ?_⟩
  intro state hreach
  obtain ⟨records, pool, hinv⟩ :=
    reachable_invariant (fun _ _ hfits => hfits) hinitial hreach
  refine ⟨hinv.safe, ?_⟩
  intro call hadmissible hfits
  obtain ⟨state', _, _, hstep, _⟩ := hinv.step hadmissible hfits
  exact ⟨state', hstep⟩

/-- In every run that never loses a next chunk, each free leaves no two
neighbouring chunks unallocated, and the one that frees the last live chunk
leaves a single chunk. -/
theorem reachable_freed_merged
    (hpositive : 0 < size.toNat) (hsize : size.toNat < 2 ^ 31)
    (hfinish : start.toNat + size.toNat < 2 ^ 64) (hexponent : exponent ≤ 14) :
    ∃ region,
      setUpRegion blank start size exponent strategy = some region ∧
        ∀ state,
          AllocatorState.Reachable
              (fun state call =>
                state.SlackFits exponent call ∧ ¬state.LosesNext call)
              { region := region, live := [] } state →
            ∀ call, call.freedChunk?.isSome → state.Admissible call →
              ¬state.LosesNext call →
                ∃ state',
                  state.step call = some state' ∧
                    state'.FullyMerged ∧
                    (state'.live = [] →
                      state'.AllMerged exponent start.toNat
                        (start.toNat + size.toNat)) := by
  obtain ⟨region, hsetUp, hinitial⟩ :=
    setUpRegion_state blank start size exponent strategy hpositive hsize hfinish
      hexponent
  refine ⟨region, hsetUp, ?_⟩
  intro state hreach call hfree hadmissible hkeeps
  obtain ⟨records, pool, hinv, hchain⟩ :=
    reachable_noFreeNeighbours hinitial (List.isChain_singleton _) hreach
  have hfits : state.SlackFits exponent call := by
    cases call with
    | alloc size => exact (Bool.false_ne_true hfree).elim
    | freeBuffer order chunk => trivial
    | freeChunk order chunk => trivial
  obtain ⟨state', records', pool', hstep, hinv', hhead, hkeep⟩ :=
    hinv.step hadmissible hfits
  have hchain' := hkeep hkeeps hchain
  exact ⟨state', hstep, hinv'.fullyMerged hchain',
    hinv'.allMerged hchain' (hhead hfree)⟩

end Runs

/-! ## Concrete runs -/

namespace AllocatorState

instance (state : AllocatorState n) :
    DecidablePred state.Admissible := fun call =>
  match call with
  | .alloc _ => inferInstanceAs (Decidable (_ ∧ _))
  | .freeBuffer _ _ => inferInstanceAs (Decidable (_ ∈ _))
  | .freeChunk _ _ => inferInstanceAs (Decidable (_ ∈ _))

/-- Make the calls one after the other, as long as they are admissible. -/
def run (state : AllocatorState n) :
    List (AllocatorCall n) → Option (AllocatorState n)
  | [] => some state
  | call :: calls =>
      if state.Admissible call then
        (state.step call).bind fun state => state.run calls
      else
        none

theorem reachable_of_run
    {initial state state' : AllocatorState n} {calls : List (AllocatorCall n)}
    (hreach : Reachable (fun _ _ => True) initial state)
    (hrun : state.run calls = some state') :
    Reachable (fun _ _ => True) initial state' := by
  induction calls generalizing state with
  | nil =>
      rw [run, Option.some.injEq] at hrun
      exact hrun ▸ hreach
  | cons call calls ih =>
      rw [run] at hrun
      split at hrun
      · rename_i hadmissible
        obtain ⟨next, hstep, hrest⟩ := Option.bind_eq_some_iff.mp hrun
        exact ih (hreach.step hadmissible trivial hstep) hrest
      · exact absurd hrun (by simp)

end AllocatorState

/-- A region record before its initialization. -/
def blankRegion : MemoryRegion maxChunksInRegion where
  address := 0
  allChunks := fun _ =>
    { startAddress := 0, isAllocated := false, size := 0, parentRegion := none }
  links := { next := fun _ => none, prev := fun _ => none }
  chunks := none
  freeChunks := none
  lastChunk := 0
  strategy := .wasteful
  alignment := 0

/-- A client that sets up a region and makes the calls. -/
def clientRun
    (start : MemoryAddress) (size : BitVec 64) (exponent : ℕ)
    (strategy : AllocationStrategy)
    (calls : List (AllocatorCall maxChunksInRegion)) :
    Option (AllocatorState maxChunksInRegion) :=
  (setUpRegion blankRegion start size exponent strategy).bind fun region =>
    AllocatorState.run { region := region, live := [] } calls

theorem reachable_of_clientRun
    {start : MemoryAddress} {size : BitVec 64} {exponent : ℕ}
    {strategy : AllocationStrategy}
    {calls : List (AllocatorCall maxChunksInRegion)}
    {state : AllocatorState maxChunksInRegion}
    (hrun : clientRun start size exponent strategy calls = some state) :
    ∃ region,
      setUpRegion blankRegion start size exponent strategy = some region ∧
        AllocatorState.Reachable (fun _ _ => True)
          { region := region, live := [] } state := by
  obtain ⟨region, hsetUp, hcalls⟩ := Option.bind_eq_some_iff.mp hrun
  exact ⟨region, hsetUp, AllocatorState.reachable_of_run .refl hcalls⟩

theorem reachable_safe_twoBuffers :
    ∃ region,
      setUpRegion blankRegion 64 4096 6 .tight = some region ∧
        ∀ state,
          AllocatorState.Reachable (fun state call => state.SlackFits 6 call)
              { region := region, live := [] } state →
            state.Safe 64 4160 ∧
              ∀ call, state.Admissible call → state.SlackFits 6 call →
                ∃ state', state.step call = some state' :=
  reachable_safe blankRegion 64 4096 6 .tight (by decide) (by decide)
    (by decide) (by decide)

/-- A one-byte region at address 1 with alignment 64 accepts a request of
`2 ^ 31 - 1` bytes: the slack `-2 ^ 31 - 61` becomes positive as an `int`. -/
theorem unaligned_region_overflows :
    ∃ region state,
      setUpRegion blankRegion 1 1 6 .wasteful = some region ∧
        AllocatorState.Reachable (fun _ _ => True)
          { region := region, live := [] } state ∧
        ¬state.Safe 1 2 := by
  have heval :
      (clientRun 1 1 6 .wasteful [.alloc 2147483647]).map (fun state =>
        (state.region.allChunks state.region.lastChunk).finish) =
          some 4294967298 := by
    decide +kernel
  obtain ⟨state, hrun, hfinish⟩ := Option.map_eq_some_iff.mp heval
  obtain ⟨region, hsetUp, hreach⟩ := reachable_of_clientRun hrun
  refine ⟨region, state, hsetUp, hreach, ?_⟩
  rintro ⟨records, pool, hsafe⟩
  have hlast := hsafe.last_finish
  omega

theorem reachable_freed_merged_page :
    ∃ region,
      setUpRegion blankRegion 64 4096 6 .wasteful = some region ∧
        ∀ state,
          AllocatorState.Reachable
              (fun state call => state.SlackFits 6 call ∧ ¬state.LosesNext call)
              { region := region, live := [] } state →
            ∀ call, call.freedChunk?.isSome → state.Admissible call →
              ¬state.LosesNext call →
                ∃ state',
                  state.step call = some state' ∧
                    state'.FullyMerged ∧
                    (state'.live = [] → state'.AllMerged 6 64 4160) :=
  reachable_freed_merged blankRegion 64 4096 6 .wasteful (by decide) (by decide)
    (by decide) (by decide)

/-- Two buffers freed in the order of their allocation: the second free merges
its chunk into the first and does not see the sentinel any more. -/
theorem innerCallFirst_loses_sentinel :
    ∃ region state,
      setUpRegion blankRegion 64 4096 6 .wasteful = some region ∧
        AllocatorState.Reachable (fun _ _ => True)
          { region := region, live := [] } state ∧
        state.live = [] ∧ ¬state.FullyMerged := by
  have heval :
      (clientRun 64 4096 6 .wasteful
        [.alloc 64, .alloc 64, .freeChunk .innerCallFirst 1,
          .freeChunk .innerCallFirst 2]).map (fun state =>
        (state.region.chunks, state.region.links.next 1,
          (state.region.allChunks 1).isAllocated,
          (state.region.allChunks 0).isAllocated, state.live.length)) =
          some (some 1, some 0, false, false, 0) := by
    decide +kernel
  obtain ⟨state, hrun, hvalues⟩ := Option.map_eq_some_iff.mp heval
  simp only [Prod.mk.injEq] at hvalues
  obtain ⟨hchunks, hnext, hfirst, hlast, hlive⟩ := hvalues
  obtain ⟨region, hsetUp, hreach⟩ := reachable_of_clientRun hrun
  refine ⟨region, state, hsetUp, hreach, List.length_eq_zero_iff.mp hlive, ?_⟩
  rintro ⟨records, hlist, hchain⟩
  have hzero : records[0]? = some 1 := hlist.head_eq.symm.trans hchunks
  have hone : records[1]? = some 0 :=
    (hlist.next_eq 0 1 hzero).symm.trans hnext
  obtain ⟨hltZero, hvalZero⟩ := List.getElem?_eq_some_iff.mp hzero
  obtain ⟨hltOne, hvalOne⟩ := List.getElem?_eq_some_iff.mp hone
  have hpair := List.isChain_iff_getElem.mp hchain 0 hltOne
  simp only [zero_add, hvalZero, hvalOne, hfirst, hlast] at hpair
  simp at hpair

end Pocl.Bufalloc
