import Pocl.BufallocFailures
import Pocl.BufallocMerging

/-!
# The alignment of the chunks

Only `append_new_chunk` rounds an address.  All chunks but the sentinel were made
by it, and merging keeps the start of the first chunk, so the chunks that are used
again are aligned as well.  This does not depend on the sizes, nor on the results
of the fit test, as long as no chunk is made beyond the end of the address space:
then the starts rise along the list and the sentinel is never taken for a chunk
in front of the first one.
-/

namespace Pocl.Bufalloc

variable {n : ℕ}

/-- The chunks of a region that was set up at `base`: their starts rise, all but
the sentinel are aligned, and the first one starts at the first aligned
address. -/
structure AlignedChunks
    (exponent : ℕ) (base : MemoryAddress) (region : MemoryRegion n)
    (records pool : List (Fin n)) : Prop where
  alignment_eq : region.alignment = alignmentOf exponent
  chained : Chained region records pool
  rising : records.Pairwise fun a b =>
    (region.allChunks a).first < (region.allChunks b).first
  aligned : ∀ chunk ∈ records, chunk ≠ region.lastChunk →
    2 ^ exponent ∣ (region.allChunks chunk).first
  head : ∀ chunk, records.head? = some chunk →
    (region.allChunks chunk).startAddress =
        alignAddress (alignmentOf exponent) base ∨
      records = [region.lastChunk] ∧
        (region.allChunks region.lastChunk).startAddress = base

namespace AlignedChunks

variable {exponent : ℕ} {base : MemoryAddress} {region region' : MemoryRegion n}
  {records pool records' pool' : List (Fin n)}

/-- The second chunk of a merge is not the first of the list. -/
theorem head_of_pair
    {a b chunk : Fin n}
    (hchunks : AlignedChunks exponent base region records pool)
    (hne : a ≠ b) (hpair : MergesPair region records pool region' a b)
    (hhead : (records.erase b).head? = some chunk) :
    (region.allChunks chunk).startAddress =
      alignAddress (alignmentOf exponent) base := by
  obtain ⟨first, rest, rfl⟩ :=
    List.exists_cons_of_ne_nil (List.ne_nil_of_mem hpair.mem_second)
  have hfirst : first ≠ b := by
    rintro rfl
    have hrest : a ∈ rest := List.mem_of_ne_of_mem hne hpair.mem_first
    have hlt := (List.pairwise_cons.mp hchunks.rising).1 a hrest
    exact absurd hpair.start_le (not_le.mpr hlt)
  rw [List.erase_cons_tail (by simpa using hfirst)] at hhead
  rcases hchunks.head chunk hhead with hstart | ⟨hsingle, _⟩
  · exact hstart
  · have ha := hpair.mem_first
    have hb := hpair.mem_second
    rw [hsingle, List.mem_singleton] at ha hb
    exact (hne (ha.trans hb.symm)).elim

theorem join
    {a b : Fin n}
    (hchunks : AlignedChunks exponent base region records pool)
    (hne : a ≠ b) (hpair : MergesPair region records pool region' a b) :
    AlignedChunks exponent base region' (records.erase b) (pool ++ [b]) := by
  have hjoined := hpair.joined
  have hlinked := hchunks.chained.linked
  have hmem : a ∈ records.erase b := (List.mem_erase_of_ne hne).mpr hpair.mem_first
  have hstart : ∀ chunk, (region'.allChunks chunk).startAddress =
      (region.allChunks chunk).startAddress := by
    intro chunk
    by_cases hchunk : chunk = a
    · rw [hchunk, hjoined.first_info]
    · rw [hjoined.same chunk hchunk]
  refine ⟨by rw [hjoined.alignment_eq, hchunks.alignment_eq],
    (hlinked.mergesPair hpair).chained (List.ne_nil_of_mem hmem), ?_, ?_, ?_⟩
  · apply (hchunks.rising.sublist List.erase_sublist).imp
    intro first second hlt
    unfold ChunkInfo.first at *
    rwa [hstart, hstart]
  · intro chunk hchunk hneLast
    unfold ChunkInfo.first
    rw [hstart]
    exact hchunks.aligned chunk (List.mem_of_mem_erase hchunk)
      (hpair.ne_last hlinked hchunk hneLast)
  · intro chunk hhead
    rw [hstart]
    exact .inl (hchunks.head_of_pair hne hpair hhead)

/-- The starts of different chunks differ, so the last chunk is never merged with
itself. -/
theorem merges
    (hmerges : Merges region records pool region' records' pool')
    (hchunks : AlignedChunks exponent base region records pool) :
    AlignedChunks exponent base region' records' pool' := by
  induction hmerges with
  | refl => exact hchunks
  | step hne hpair hrest ih => exact ih (hchunks.join hne hpair)
  | empty hne hpair hself =>
      have hlt := (List.pairwise_cons.mp hchunks.rising).1 _ (List.mem_singleton_self _)
      exact absurd hpair.start_le (not_le.mpr hlt)

theorem setAllocated
    (hchunks : AlignedChunks exponent base region records pool)
    {chunk : Fin n} (hne : chunk ≠ region.lastChunk) (flag : Bool) :
    AlignedChunks exponent base
      (region.setChunk chunk { region.allChunks chunk with isAllocated := flag })
      records pool := by
  have hstart : ∀ other,
      ((region.setChunk chunk
        { region.allChunks chunk with isAllocated := flag }).allChunks
          other).startAddress = (region.allChunks other).startAddress := by
    intro other
    by_cases heq : other = chunk
    · rw [heq, region.setChunk_self]
    · rw [region.setChunk_of_ne heq]
  refine ⟨hchunks.alignment_eq,
    (hchunks.chained.linked.setAllocated hne flag).chained hchunks.chained.ne_nil,
    ?_, ?_, ?_⟩
  · apply hchunks.rising.imp
    intro first second hlt
    unfold ChunkInfo.first at *
    rwa [hstart, hstart]
  · intro other hmem hother
    unfold ChunkInfo.first
    rw [hstart]
    exact hchunks.aligned other hmem hother
  · intro other hhead
    rw [hstart, hstart]
    exact hchunks.head other hhead

/-- A new chunk in front of the sentinel. -/
theorem place
    {front rest : List (Fin n)} {fresh : Fin n} {size : BitVec 64}
    (hexponent : exponent ≤ 14)
    (hchunks : AlignedChunks exponent base region
      (front ++ [region.lastChunk]) (fresh :: rest))
    (hpositive : 0 < size.toNat)
    (hbelow : alignUp exponent (region.allChunks region.lastChunk).first +
      size.toNat < 2 ^ 64)
    (hplaced : Placed region region' fresh size)
    (hlists : HasLists region' (front ++ [fresh, region.lastChunk]) rest) :
    AlignedChunks exponent base region' (front ++ [fresh, region.lastChunk])
      rest := by
  have hsame := hchunks.chained.same_of_placed hplaced
  have hround := le_alignUp exponent (region.allChunks region.lastChunk).first
  have hcut : (alignAddress region.alignment
      (region.allChunks region.lastChunk).startAddress).toNat =
        alignUp exponent (region.allChunks region.lastChunk).first := by
    rw [hchunks.alignment_eq, toNat_alignAddress hexponent]
    exact Nat.mod_eq_of_lt (by unfold ChunkInfo.first at hbelow; omega)
  have hfresh : (region'.allChunks fresh).first =
      alignUp exponent (region.allChunks region.lastChunk).first := by
    rw [hplaced.fresh_info]
    exact hcut
  have hlast : (region'.allChunks region.lastChunk).first =
      alignUp exponent (region.allChunks region.lastChunk).first + size.toNat := by
    rw [hplaced.last_info, ChunkInfo.first, BitVec.toNat_add, hcut]
    exact Nat.mod_eq_of_lt hbelow
  have hold := List.pairwise_append.mp hchunks.rising
  refine ⟨by rw [hplaced.alignment_eq, hchunks.alignment_eq],
    hchunks.chained.place hplaced hlists, ?_, ?_, ?_⟩
  · rw [List.pairwise_append]
    refine ⟨?_, ?_, ?_⟩
    · apply hold.1.imp_of_mem
      intro first second hfirst hsecond hlt
      rwa [hsame first hfirst, hsame second hsecond]
    · simp only [List.pairwise_cons, List.mem_singleton, forall_eq,
        List.not_mem_nil, IsEmpty.forall_iff, implies_true, List.Pairwise.nil,
        and_true]
      omega
    · intro chunk hmem other hother
      have hlt := hold.2.2 chunk hmem region.lastChunk (by simp)
      rw [hsame chunk hmem]
      rcases List.mem_pair.mp hother with rfl | rfl
      · omega
      · omega
  · intro chunk hmem hne
    rw [hplaced.last_eq] at hne
    simp only [List.mem_append, List.mem_cons, List.not_mem_nil, or_false] at hmem
    rcases hmem with hfront | rfl | rfl
    · rw [hsame chunk hfront]
      exact hchunks.aligned chunk (by simp [hfront]) hne
    · rw [hfresh]
      exact dvd_alignUp _ _
    · exact (hne rfl).elim
  · intro chunk hhead
    left
    cases front with
    | nil =>
        obtain rfl : fresh = chunk := by simpa using hhead
        rw [hplaced.fresh_info, hchunks.alignment_eq]
        rcases hchunks.head region.lastChunk rfl with hbase | ⟨_, hbase⟩
        · rw [hbase]
          exact alignAddress_of_dvd hexponent (dvd_alignAddress hexponent base)
        · rw [hbase]
    | cons first others =>
        obtain rfl : first = chunk := by simpa using hhead
        rw [hsame first (by simp)]
        rcases hchunks.head first rfl with hbase | ⟨hsingle, _⟩
        · exact hbase
        · simp at hsingle

end AlignedChunks

/-! ## Runs -/

namespace AllocatorState

/-- The call makes a chunk that does not end below `2 ^ 64`: the fit test lets it
into the sentinel, which is asked, and there is a record for it. -/
def Wraps (exponent : ℕ) (state : AllocatorState n) : AllocatorCall n → Prop
  | .alloc size =>
      2 ^ 64 ≤
          alignUp exponent
              (state.region.allChunks state.region.lastChunk).first +
            size.toNat ∧
        Accepts state.region size state.region.lastChunk ∧
        state.region.freeChunks ≠ none ∧
        (state.region.strategy = .tight →
          ∀ records, IsDList state.region.links state.region.chunks records →
            ∀ chunk ∈ records, ¬Taken state.region size chunk)
  | _ => False

end AllocatorState

/-- The invariant of a run; the client holds allocated chunks. -/
structure AlignedState
    (exponent : ℕ) (base : MemoryAddress) (state : AllocatorState n)
    (records pool : List (Fin n)) : Prop where
  chunks : AlignedChunks exponent base state.region records pool
  live : ∀ chunk ∈ state.liveChunks,
    chunk ∈ records ∧ (state.region.allChunks chunk).isAllocated = true

namespace AlignedState

variable {exponent : ℕ} {base : MemoryAddress} {state state' : AllocatorState n}
  {records pool : List (Fin n)}

theorem alloc
    (hexponent : exponent ≤ 14)
    (hstate : AlignedState exponent base state records pool) {size : BitVec 64}
    (hadmissible : state.Admissible (.alloc size))
    (hwraps : ¬state.Wraps exponent (.alloc size))
    (hstep : state.step (.alloc size) = some state') :
    ∃ records' pool', AlignedState exponent base state' records' pool' := by
  obtain ⟨region', result, halloc, hallocation⟩ :=
    hstate.chunks.chained.allocBufferFromRegion size
  rw [AllocatorState.step, halloc] at hstep
  obtain rfl := Option.some.inj hstep
  cases hallocation with
  | failed hreuse hfull => exact ⟨records, pool, hstate.chunks, hstate.live⟩
  | reused chunk hmem htaken =>
      refine ⟨records, pool, hstate.chunks.setAllocated htaken.1 true, ?_⟩
      intro other hother
      rcases List.mem_cons.mp hother with rfl | hold
      · exact ⟨hmem, by simp [AllocatorState.acquire]⟩
      · obtain ⟨hotherMem, hotherAlloc⟩ := hstate.live other hold
        obtain ⟨hkept, hinfo⟩ :=
          KeepsAllocated.setAllocated records htaken.2.1 other hotherMem hotherAlloc
        exact ⟨hkept, (congrArg ChunkInfo.isAllocated hinfo).trans hotherAlloc⟩
  | appended region' fresh front rest hrecords hpool haccepts hskipped hplaced hlists =>
      subst hrecords
      subst hpool
      have hbelow : alignUp exponent
          (state.region.allChunks state.region.lastChunk).first + size.toNat <
            2 ^ 64 := by
        by_contra hnot
        refine hwraps ⟨not_lt.mp hnot, haccepts, ?_, ?_⟩
        · rw [hstate.chunks.chained.lists.pool_list.head_eq]
          simp
        · intro htight other hlist
          rw [hlist.unique hstate.chunks.chained.lists.chunks_list]
          exact hskipped htight
      refine ⟨_, _, hstate.chunks.place hexponent hadmissible.1 hbelow hplaced
        hlists, ?_⟩
      intro other hother
      rcases List.mem_cons.mp hother with heq | hold
      · rw [heq]
        refine ⟨by simp, ?_⟩
        change (region'.allChunks fresh).isAllocated = true
        rw [hplaced.fresh_info]
      · obtain ⟨hotherMem, hotherAlloc⟩ := hstate.live other hold
        obtain ⟨hkept, hinfo⟩ :=
          hplaced.keepsAllocated hstate.chunks.chained other hotherMem hotherAlloc
        exact ⟨hkept, (congrArg ChunkInfo.isAllocated hinfo).trans hotherAlloc⟩

theorem freeChunk
    (hstate : AlignedState exponent base state records pool) {chunk : Fin n}
    {order : ArgumentOrder} (hchunk : chunk ∈ state.liveChunks)
    (hstep : state.step (.freeChunk order chunk) = some state') :
    ∃ records' pool', AlignedState exponent base state' records' pool' := by
  obtain ⟨hmem, halloc⟩ := hstate.live chunk hchunk
  have hne : chunk ≠ state.region.lastChunk := by
    rintro rfl
    simp [hstate.chunks.chained.last_free] at halloc
  obtain ⟨region', records', pool', hfree, hmerges⟩ :=
    hstate.chunks.chained.linked.freeChunk hmem hne order
  rw [AllocatorState.step, hfree] at hstep
  obtain rfl := Option.some.inj hstep
  refine ⟨records', pool',
    (hstate.chunks.setAllocated hne false).merges hmerges, ?_⟩
  intro other hother
  obtain ⟨hlive, hneChunk⟩ :=
    (state.mem_liveChunks_release region' chunk other).mp hother
  obtain ⟨hotherMem, hotherAlloc⟩ := hstate.live other hlive
  have hmarked := state.region.setChunk_of_ne hneChunk
    { state.region.allChunks chunk with isAllocated := false }
  obtain ⟨hkept, hinfo⟩ :=
    hmerges.keepsAllocated other hotherMem (by rw [hmarked, hotherAlloc])
  refine ⟨hkept, ?_⟩
  exact (congrArg ChunkInfo.isAllocated (hinfo.trans hmarked)).trans hotherAlloc

theorem step
    (hexponent : exponent ≤ 14)
    (hstate : AlignedState exponent base state records pool)
    {call : AllocatorCall n} (hadmissible : state.Admissible call)
    (hwraps : ¬state.Wraps exponent call) (hstep : state.step call = some state') :
    ∃ records' pool', AlignedState exponent base state' records' pool' := by
  cases call with
  | alloc size => exact hstate.alloc hexponent hadmissible hwraps hstep
  | freeChunk order chunk => exact hstate.freeChunk hadmissible hstep
  | freeBuffer order chunk =>
      obtain ⟨hmem, halloc⟩ := hstate.live chunk hadmissible
      obtain ⟨before, next, rest, hrecords⟩ :=
        hstate.chunks.chained.split_allocated hmem halloc
      rw [AllocatorState.freeBuffer_eq_freeChunk
        (hrecords ▸ hstate.chunks.chained)] at hstep
      · exact hstate.freeChunk hadmissible hstep
      · intro other hother heq
        have hrising := hstate.chunks.rising
        rw [hrecords, List.pairwise_append] at hrising
        have hlt := hrising.2.2 other hother chunk (by simp)
        rw [ChunkInfo.first, ChunkInfo.first, heq] at hlt
        exact lt_irrefl _ hlt

theorem reachable
    (hexponent : exponent ≤ 14) {initial : AllocatorState n}
    (hinitial : AlignedState exponent base initial records pool)
    (hreach : AllocatorState.Reachable
      (fun state call => ¬state.Wraps exponent call) initial state) :
    ∃ records' pool', AlignedState exponent base state records' pool' := by
  induction hreach with
  | refl => exact ⟨records, pool, hinitial⟩
  | step hreach hadmissible hpermitted hstep ih =>
      obtain ⟨records', pool', hstate⟩ := ih
      exact hstate.step hexponent hadmissible hpermitted hstep

/-- Whatever an allocation returns is aligned. -/
theorem returned_aligned
    (hexponent : exponent ≤ 14)
    (hstate : AlignedState exponent base state records pool)
    {size : BitVec 64} {region' : MemoryRegion n} {chunk : Fin n}
    (halloc : state.region.allocBufferFromRegion size =
      some (region', some chunk)) :
    2 ^ exponent ∣ (region'.allChunks chunk).first := by
  obtain ⟨region'', result, halloc', hallocation⟩ :=
    hstate.chunks.chained.allocBufferFromRegion size
  rw [halloc] at halloc'
  cases halloc'
  cases hallocation with
  | reused chunk hmem htaken =>
      rw [state.region.setChunk_self]
      exact hstate.chunks.aligned chunk hmem htaken.1
  | appended region' fresh front rest hrecords hpool haccepts hskipped hplaced hlists =>
      rw [hplaced.fresh_info, hstate.chunks.alignment_eq]
      exact dvd_alignAddress hexponent _

theorem head_at_base
    (hexponent : exponent ≤ 14)
    (hstate : AlignedState exponent base state records pool)
    (hbase : 2 ^ exponent ∣ base.toNat) :
    ∃ head, state.region.chunks = some head ∧
      (state.region.allChunks head).startAddress = base := by
  obtain ⟨front, rfl⟩ := hstate.chunks.chained.split_last
  obtain ⟨head, hhead⟩ : ∃ head, (front ++ [state.region.lastChunk]).head? =
      some head := by
    cases front with
    | nil => exact ⟨_, rfl⟩
    | cons first rest => exact ⟨first, rfl⟩
  refine ⟨head, ?_, ?_⟩
  · rw [hstate.chunks.chained.lists.chunks_list.head_eq, ← List.head?_eq_getElem?]
    exact hhead
  · rcases hstate.chunks.head head hhead with hstart | ⟨hsingle, hstart⟩
    · rw [hstart, alignAddress_of_dvd hexponent hbase]
    · rw [hsingle] at hhead
      obtain rfl := Option.some.inj hhead
      exact hstart

end AlignedState

/-- In every run that makes no chunk beyond the end of the address space, all
chunks that are returned are aligned, and the first chunk starts at the base of
the region if this is aligned. -/
theorem reachable_aligned
    [NeZero n] (blank : MemoryRegion n) (start : MemoryAddress)
    (size : BitVec 64) (exponent : ℕ) (strategy : AllocationStrategy)
    (hexponent : exponent ≤ 14) :
    ∃ region,
      setUpRegion blank start size exponent strategy = some region ∧
        ∀ state,
          AllocatorState.Reachable
              (fun state call => ¬state.Wraps exponent call)
              { region := region, live := [] } state →
            (∀ request region' chunk,
              state.region.allocBufferFromRegion request =
                  some (region', some chunk) →
                2 ^ exponent ∣ (region'.allChunks chunk).first) ∧
              (2 ^ exponent ∣ start.toNat →
                ∃ head, state.region.chunks = some head ∧
                  (state.region.allChunks head).startAddress = start) := by
  obtain ⟨region, hsetUp, hregion⟩ :=
    setUpRegion_setUp blank start size exponent strategy
  refine ⟨region, hsetUp, ?_⟩
  have hinitial : AlignedState exponent start
      ({ region := region, live := [] } : AllocatorState n) [0]
      ((List.finRange n).drop 1) := by
    refine ⟨⟨hregion.alignment_eq, hregion.chained, by simp, ?_, ?_⟩, by
      simp [AllocatorState.liveChunks]⟩
    · intro chunk hmem hne
      exact (hne (hregion.last_eq ▸ List.mem_singleton.mp hmem)).elim
    · intro chunk _
      right
      refine ⟨by rw [hregion.last_eq], ?_⟩
      rw [hregion.last_eq, hregion.sentinel_eq]
  intro state hreach
  obtain ⟨records, pool, hstate⟩ := hinitial.reachable hexponent hreach
  exact ⟨fun _ _ _ halloc => hstate.returned_aligned hexponent halloc,
    hstate.head_at_base hexponent⟩

theorem reachable_aligned_page :
    ∃ region,
      setUpRegion blankRegion 64 4096 6 .tight = some region ∧
        ∀ state,
          AllocatorState.Reachable (fun state call => ¬state.Wraps 6 call)
              { region := region, live := [] } state →
            (∀ request region' chunk,
              state.region.allocBufferFromRegion request =
                  some (region', some chunk) →
                2 ^ 6 ∣ (region'.allChunks chunk).first) ∧
              (2 ^ 6 ∣ (64 : MemoryAddress).toNat →
                ∃ head, state.region.chunks = some head ∧
                  (state.region.allChunks head).startAddress = 64) :=
  reachable_aligned blankRegion 64 4096 6 .tight (by decide)

/-- A region of ten bytes in the last 64 bytes of the address space: the second
chunk starts at address 0, and freeing the first one merges it into the
sentinel. -/
theorem topRegion_loses_base :
    ∃ region state,
      setUpRegion blankRegion 18446744073709551552 10 6 .wasteful = some region ∧
        AllocatorState.Reachable (fun _ _ => True)
          { region := region, live := [] } state ∧
        2 ^ 6 ∣ (18446744073709551552 : MemoryAddress).toNat ∧
        ¬∃ head, state.region.chunks = some head ∧
          (state.region.allChunks head).startAddress = 18446744073709551552 := by
  have heval :
      (clientRun 18446744073709551552 10 6 .wasteful
        [.alloc 10, .alloc 2147483647, .freeChunk .nextFirst 1]).map
          (fun state => (state.region.chunks,
            (state.region.allChunks 2).startAddress)) = some (some 2, 0) := by
    decide +kernel
  obtain ⟨state, hrun, hvalues⟩ := Option.map_eq_some_iff.mp heval
  simp only [Prod.mk.injEq] at hvalues
  obtain ⟨region, hsetUp, hreach⟩ := reachable_of_clientRun hrun
  refine ⟨region, state, hsetUp, hreach, by decide, ?_⟩
  rintro ⟨head, hhead, hstart⟩
  rw [hvalues.1] at hhead
  cases hhead
  rw [hvalues.2] at hstart
  exact absurd hstart (by decide)

end Pocl.Bufalloc
