import Pocl.BufallocSteps

/-!
# Freeing a chunk

`free_chunk` marks the chunk unallocated and merges it with its neighbours by
two nested calls of `coalesce_chunks`.  The inner call may move the chunk to
the pool, which clears its `next` pointer; whether the outer call then still
sees the next chunk depends on the argument order.
-/

namespace Pocl.Bufalloc

variable {n : ℕ} {bounds : RegionBounds}
  {region region' region'' : MemoryRegion n}
  {records records' records'' pool : List (Fin n)}

/-- The same chunks are allocated, with unchanged records. -/
def SameAllocated
    (region region' : MemoryRegion n) (records records' : List (Fin n)) :
    Prop :=
  ∀ chunk,
    (chunk ∈ records ∧ (region.allChunks chunk).isAllocated = true ↔
      chunk ∈ records' ∧ (region'.allChunks chunk).isAllocated = true) ∧
    (chunk ∈ records → (region.allChunks chunk).isAllocated = true →
      region'.allChunks chunk = region.allChunks chunk)

theorem SameAllocated.refl (region : MemoryRegion n) (records : List (Fin n)) :
    SameAllocated region region records records :=
  fun _ => ⟨Iff.rfl, fun _ _ => rfl⟩

theorem SameAllocated.trans
    (hfirst : SameAllocated region region' records records')
    (hsecond : SameAllocated region' region'' records' records'') :
    SameAllocated region region'' records records'' := by
  intro chunk
  refine ⟨(hfirst chunk).1.trans (hsecond chunk).1, ?_⟩
  intro hmem halloc
  have hmid := (hfirst chunk).1.mp ⟨hmem, halloc⟩
  rw [(hsecond chunk).2 hmid.1 hmid.2, (hfirst chunk).2 hmem halloc]

/-- Of two neighbouring chunks at least one is allocated. -/
def NoFreeNeighbours
    (region : MemoryRegion n) (records : List (Fin n)) : Prop :=
  records.IsChain fun a b =>
    (region.allChunks a).isAllocated = true ∨
      (region.allChunks b).isAllocated = true

/-- An unallocated chunk between allocated neighbours. -/
theorem noFreeNeighbours_insert
    {before after : List (Fin n)} {chunk : Fin n}
    (hbefore : NoFreeNeighbours region before)
    (hafter : NoFreeNeighbours region after)
    (hsame : ∀ other ∈ before ++ after,
      (region'.allChunks other).isAllocated =
        (region.allChunks other).isAllocated)
    (hprev : ∀ prev, before.getLast? = some prev →
      (region.allChunks prev).isAllocated = true)
    (hnext : ∀ next, after.head? = some next →
      (region.allChunks next).isAllocated = true) :
    NoFreeNeighbours region' (before ++ chunk :: after) := by
  unfold NoFreeNeighbours at *
  rw [List.isChain_append]
  refine ⟨?_, ?_, ?_⟩
  · apply hbefore.imp_of_mem_imp
    intro a b ha hb hab
    rw [hsame a (by simp [ha]), hsame b (by simp [hb])]
    exact hab
  · rw [List.isChain_cons]
    refine ⟨?_, ?_⟩
    · intro next hhead
      right
      rw [hsame next (by simp [List.mem_of_mem_head? hhead])]
      exact hnext next hhead
    · apply hafter.imp_of_mem_imp
      intro a b ha hb hab
      rw [hsame a (by simp [ha]), hsame b (by simp [hb])]
      exact hab
  · intro prev hlast next hhead
    left
    rw [hsame prev (by simp [List.mem_of_getLast? hlast])]
    exact hprev prev hlast

theorem NoFreeNeighbours.head_allocated
    {before rest : List (Fin n)} {chunk other : Fin n}
    (hchain : NoFreeNeighbours region (before ++ chunk :: rest))
    (hchunk : (region.allChunks chunk).isAllocated = false)
    (hother : rest.head? = some other) :
    (region.allChunks other).isAllocated = true := by
  have hright := (List.isChain_append.mp hchain).2.1
  rcases (List.isChain_cons.mp hright).1 other hother with halloc | halloc
  · simp [hchunk] at halloc
  · exact halloc

theorem NoFreeNeighbours.last_allocated
    {front rest : List (Fin n)} {chunk other : Fin n}
    (hchain : NoFreeNeighbours region (front ++ chunk :: rest))
    (hchunk : (region.allChunks chunk).isAllocated = false)
    (hother : front.getLast? = some other) :
    (region.allChunks other).isAllocated = true := by
  rcases (List.isChain_append.mp hchain).2.2 other hother chunk rfl with
    halloc | halloc
  · exact halloc
  · simp [hchunk] at halloc

namespace RegionInvariant

theorem Merged.sameAllocated
    {before after : List (Fin n)} {a b : Fin n}
    (ha : (region.allChunks a).isAllocated = false)
    (hb : (region.allChunks b).isAllocated = false)
    (hmerged : Merged bounds region region' (before ++ a :: after) pool a b) :
    SameAllocated region region' (before ++ a :: b :: after)
      (before ++ a :: after) := by
  intro chunk
  by_cases hchunk : chunk = a
  · subst hchunk
    simp [ha, hmerged.free]
  · rw [hmerged.same chunk hchunk]
    refine ⟨?_, fun _ _ => rfl⟩
    by_cases hchunkB : chunk = b
    · subst hchunkB
      simp [hb]
    · simp [hchunk, hchunkB]

/-- The inner call of `coalesce_chunks`. -/
theorem coalesce_prev
    {before after : List (Fin n)} {chunk : Fin n}
    (hinv : RegionInvariant bounds region (before ++ chunk :: after) pool)
    (hchunk : (region.allChunks chunk).isAllocated = false)
    (hne : chunk ≠ region.lastChunk) :
    (region.coalesceChunks (region.links.prev chunk) (some chunk) =
        some (region, some chunk) ∧
      ∀ prev, before.getLast? = some prev →
        (region.allChunks prev).isAllocated = true) ∨
    ∃ front prev region',
      before = front ++ [prev] ∧
        (region.allChunks prev).isAllocated = false ∧
        region.coalesceChunks (region.links.prev chunk) (some chunk) =
          some (region', some prev) ∧
        Merged bounds region region' (front ++ prev :: after) pool prev chunk := by
  have hmem : chunk ∈ before ++ chunk :: after := by simp
  rcases List.eq_nil_or_concat before with rfl | ⟨front, prev, rfl⟩
  · -- The head: its `prev` is the sentinel, which lies behind it.
    left
    have hprev := hinv.lists.chunks_list.prev_head chunk rfl
    rw [hinv.layout.last_eq] at hprev
    rw [hprev]
    refine ⟨MemoryRegion.coalesceChunks_of_lt ?_, by simp⟩
    have hpositive := hinv.layout.positive chunk hmem hne
    have hfinish := hinv.layout.finish_le_last_first hmem hne
    unfold ChunkInfo.first ChunkInfo.finish at *
    omega
  · rw [List.concat_eq_append] at *
    have hprev := hinv.lists.chunks_list.prev_eq front.length chunk (by simp)
    have hget : (front ++ [prev] ++ chunk :: after)[front.length]? = some prev := by
      simp
    rw [hprev, hget]
    by_cases halloc : (region.allChunks prev).isAllocated = true
    · left
      refine ⟨MemoryRegion.coalesceChunks_of_allocated (.inl halloc), ?_⟩
      intro other hother
      simp only [List.getLast?_append, List.getLast?_singleton,
        Option.some_or, Option.some.injEq] at hother
      rw [← hother]
      exact halloc
    · right
      have hfree : (region.allChunks prev).isAllocated = false := by
        simpa using halloc
      have hinv' : RegionInvariant bounds region
          (front ++ prev :: chunk :: after) pool := by
        simpa using hinv
      obtain ⟨region', hcoalesce, hmerged⟩ :=
        hinv'.coalesceChunks_merge hfree hchunk
      exact ⟨front, prev, region', rfl, hfree, hcoalesce, hmerged⟩

/-- The outer call of `coalesce_chunks`, on a next chunk. -/
theorem coalesce_next
    {before rest : List (Fin n)} {chunk next : Fin n}
    (hinv : RegionInvariant bounds region (before ++ chunk :: next :: rest) pool)
    (hchunk : (region.allChunks chunk).isAllocated = false) :
    (region.coalesceChunks (some chunk) (some next) =
        some (region, some next) ∧
      (region.allChunks next).isAllocated = true) ∨
    ∃ region',
      (region.allChunks next).isAllocated = false ∧
        region.coalesceChunks (some chunk) (some next) =
          some (region', some chunk) ∧
        Merged bounds region region' (before ++ chunk :: rest) pool chunk next := by
  by_cases halloc : (region.allChunks next).isAllocated = true
  · exact .inl ⟨MemoryRegion.coalesceChunks_of_allocated (.inr halloc), halloc⟩
  · have hfree : (region.allChunks next).isAllocated = false := by
      simpa using halloc
    obtain ⟨region', hcoalesce, hmerged⟩ :=
      hinv.coalesceChunks_merge hchunk hfree
    exact .inr ⟨region', hfree, hcoalesce, hmerged⟩

/-- The chunk is freed between two unallocated chunks and the outer call
evaluates its arguments in the order that loses the next one. -/
def LosesNext
    (order : ArgumentOrder) (region : MemoryRegion n)
    (before : List (Fin n)) (next : Fin n) : Prop :=
  order = .innerCallFirst ∧ (region.allChunks next).isAllocated = false ∧
    ∃ prev, before.getLast? = some prev ∧
      (region.allChunks prev).isAllocated = false

/-- The effect of freeing `chunk`: `records` are the chunks before. -/
structure Freed
    (bounds : RegionBounds) (order : ArgumentOrder)
    (region region' : MemoryRegion n) (before : List (Fin n))
    (chunk next : Fin n) (rest records' pool' : List (Fin n)) : Prop where
  invariant : RegionInvariant bounds region' records' pool'
  strategy_eq : region'.strategy = region.strategy
  same : SameAllocated
    (region.setChunk chunk { region.allChunks chunk with isAllocated := false })
    region' (before ++ chunk :: next :: rest) records'
  head_first : ∀ head, records'.head? = some head →
    (region'.allChunks head).first = alignUp bounds.exponent bounds.start
  noFreeNeighbours :
    ¬LosesNext order region before next →
      NoFreeNeighbours region (before ++ chunk :: next :: rest) →
      NoFreeNeighbours region' records'

/-- Whatever was merged into one unallocated chunk, its new neighbours are
allocated. -/
theorem noFreeNeighbours_freed
    {before after front back : List (Fin n)} {chunk merged : Fin n}
    (hchain : NoFreeNeighbours region (before ++ chunk :: after))
    (hchunk : chunk ∉ before ++ after)
    (hfront : front <+: before) (hback : back <:+ after)
    (hprev : ∀ prev, front.getLast? = some prev →
      (region.allChunks prev).isAllocated = true)
    (hnext : ∀ next, back.head? = some next →
      (region.allChunks next).isAllocated = true)
    (hmerged : merged ∉ front ++ back)
    (hsame : ∀ other, other ≠ chunk → other ≠ merged →
      region'.allChunks other = region.allChunks other) :
    NoFreeNeighbours region' (front ++ merged :: back) := by
  unfold NoFreeNeighbours at hchain
  rw [List.isChain_append] at hchain
  obtain ⟨hleft, hright, _⟩ := hchain
  have hkept : NoFreeNeighbours region front := by
    obtain ⟨dropped, rfl⟩ := hfront
    exact hleft.left_of_append
  apply noFreeNeighbours_insert hkept (hright.tail.suffix hback)
  · intro other hother
    have hne : other ≠ chunk := by
      rintro rfl
      rcases List.mem_append.mp hother with hmem | hmem
      · exact hchunk (List.mem_append_left _ (hfront.subset hmem))
      · exact hchunk (List.mem_append_right _ (hback.subset hmem))
    have hneMerged : other ≠ merged := by
      rintro rfl
      exact hmerged hother
    rw [hsame other hne hneMerged]
  · exact hprev
  · exact hnext

/-- The state after the chunk has been marked, before anything is merged. -/
structure Marked
    (bounds : RegionBounds) (region region₁ : MemoryRegion n)
    (before : List (Fin n)) (chunk next : Fin n) (rest pool : List (Fin n)) : Prop where
  marked_eq : region₁ =
    region.setChunk chunk { region.allChunks chunk with isAllocated := false }
  strategy_eq : region₁.strategy = region.strategy
  invariant : RegionInvariant bounds region₁ (before ++ chunk :: next :: rest) pool
  free : (region₁.allChunks chunk).isAllocated = false
  same : ∀ other, other ≠ chunk → region₁.allChunks other = region.allChunks other
  next_eq : region₁.links.next chunk = some next
  ne_last : chunk ≠ region₁.lastChunk
  not_mem : chunk ∉ before ++ next :: rest
  next_ne : next ≠ chunk

theorem marked
    {before rest : List (Fin n)} {chunk next : Fin n}
    (hinv : RegionInvariant bounds region (before ++ chunk :: next :: rest) pool) :
    Marked bounds region
      (region.setChunk chunk { region.allChunks chunk with isAllocated := false })
      before chunk next rest pool := by
  have hnodup := hinv.layout.nodup
  have hneLast : chunk ≠ region.lastChunk := by
    intro heq
    have hlast := hinv.layout.last_eq
    rw [List.getLast?_append_cons, List.getLast?_cons_cons] at hlast
    have hmem := List.mem_of_getLast? hlast
    rw [← heq] at hmem
    simp only [List.nodup_append, List.nodup_cons] at hnodup
    exact hnodup.2.1.1 hmem
  have hinv₁ := hinv.setAllocated hneLast false
  have hnot : chunk ∉ before ++ next :: rest := by
    rw [List.nodup_middle] at hnodup
    exact (List.nodup_cons.mp hnodup).1
  refine ⟨rfl, rfl, hinv₁, by rw [region.setChunk_self],
    fun other hne => region.setChunk_of_ne hne _, ?_, hneLast, hnot, ?_⟩
  · have hget := hinv₁.lists.chunks_list.next_eq before.length chunk (by simp)
    rw [hget]
    simp
  · rintro rfl
    exact hnot (by simp)

/-- The chunk stays where it is. -/
theorem freeChunk_unmerged
    {region₁ : MemoryRegion n} {before rest : List (Fin n)} {chunk next : Fin n}
    (hmarked : Marked bounds region region₁ before chunk next rest pool)
    (order : ArgumentOrder)
    (hinner : region₁.coalesceChunks (region₁.links.prev chunk) (some chunk) =
      some (region₁, some chunk))
    (hprev₁ : ∀ prev, before.getLast? = some prev →
      (region₁.allChunks prev).isAllocated = true) :
    ∃ region' records' pool',
      region.freeChunk order chunk = some region' ∧
        Freed bounds order region region' before chunk next rest records' pool' := by
  have hprev : ∀ prev, before.getLast? = some prev →
      (region.allChunks prev).isAllocated = true := by
    intro prev hlast
    rw [← hmarked.same prev]
    · exact hprev₁ prev hlast
    · rintro rfl
      exact hmarked.not_mem (by simp [List.mem_of_getLast? hlast])
  have hfree : ∀ result,
      region₁.coalesceChunks (some chunk) (some next) = some result →
      region.freeChunk order chunk = some result.1 := by
    intro result houter
    have hnext := hmarked.next_eq
    rw [hmarked.marked_eq] at hinner hnext houter
    cases order <;> simp [MemoryRegion.freeChunk, hinner, hnext, houter]
  rcases hmarked.invariant.coalesce_next hmarked.free with
    ⟨houter, hnext₁⟩ | ⟨region₂, hnext₁, houter, hmerged₂⟩
  · refine ⟨region₁, _, pool, hfree _ houter, hmarked.invariant,
      hmarked.strategy_eq, hmarked.marked_eq ▸ SameAllocated.refl _ _, ?_, ?_⟩
    · intro head hhead
      apply hmarked.invariant.layout.head_first_of_length hhead
      simp
      omega
    intro _ hchain
    apply noFreeNeighbours_freed hchain hmarked.not_mem List.prefix_rfl
      List.suffix_rfl hprev _ hmarked.not_mem
    · intro other hne _
      exact hmarked.same other hne
    · intro other hhead
      obtain rfl : next = other := by simpa using hhead
      rw [← hmarked.same next hmarked.next_ne]
      exact hnext₁
  · have hnext : (region.allChunks next).isAllocated = false := by
      rw [← hmarked.same next hmarked.next_ne]
      exact hnext₁
    refine ⟨region₂, _, _, hfree _ houter, hmerged₂.invariant,
      hmerged₂.strategy_eq.trans hmarked.strategy_eq,
      hmarked.marked_eq ▸ hmerged₂.sameAllocated hmarked.free hnext₁,
      hmerged₂.head_first, ?_⟩
    intro _ hchain
    apply noFreeNeighbours_freed hchain hmarked.not_mem List.prefix_rfl
      (List.suffix_cons next rest) hprev
    · intro other hhead
      have hchain' : NoFreeNeighbours region
          ((before ++ [chunk]) ++ next :: rest) := by
        simpa using hchain
      exact hchain'.head_allocated hnext hhead
    · intro hmem
      apply hmarked.not_mem
      simp only [List.mem_append, List.mem_cons] at hmem ⊢
      tauto
    · intro other hne _
      rw [hmerged₂.same other hne, hmarked.same other hne]

/-- The chunk is merged into the previous one. -/
theorem freeChunk_merged
    {region₁ region₂ : MemoryRegion n} {front rest : List (Fin n)} {prev chunk next : Fin n}
    (hmarked : Marked bounds region region₁ (front ++ [prev]) chunk next rest pool)
    (order : ArgumentOrder)
    (hinner : region₁.coalesceChunks (region₁.links.prev chunk) (some chunk) =
      some (region₂, some prev))
    (hprev₁ : (region₁.allChunks prev).isAllocated = false)
    (hmerged₂ : Merged bounds region₁ region₂ (front ++ prev :: next :: rest) pool prev chunk) :
    ∃ region' records' pool',
      region.freeChunk order chunk = some region' ∧
        Freed bounds order region region' (front ++ [prev]) chunk next rest records'
          pool' := by
  have hprevNe : prev ≠ chunk := by
    rintro rfl
    exact hmarked.not_mem (by simp)
  have hprev : (region.allChunks prev).isAllocated = false := by
    rw [← hmarked.same prev hprevNe]
    exact hprev₁
  have hlastPrev : (front ++ [prev]).getLast? = some prev := by simp
  have hstrategy : region₂.strategy = region.strategy :=
    hmerged₂.strategy_eq.trans hmarked.strategy_eq
  have hsame₂ : SameAllocated region₁ region₂
      (front ++ [prev] ++ chunk :: next :: rest) (front ++ prev :: next :: rest) := by
    have hmerge := hmerged₂.sameAllocated hprev₁ hmarked.free
    simpa using hmerge
  have hnodup₂ := hmerged₂.invariant.layout.nodup
  have hnext₂ : (region₂.allChunks next).isAllocated =
      (region.allChunks next).isAllocated := by
    rw [hmerged₂.same next, hmarked.same next hmarked.next_ne]
    rintro rfl
    simp [List.nodup_append] at hnodup₂
  rw [List.nodup_middle, List.nodup_cons] at hnodup₂
  have hfrontOf : front <+: front ++ [prev] := List.prefix_append _ _
  have hfrontLast : NoFreeNeighbours region
        (front ++ [prev] ++ chunk :: next :: rest) →
      ∀ other, front.getLast? = some other →
        (region.allChunks other).isAllocated = true := by
    intro hchain other hother
    rw [List.append_assoc, List.singleton_append] at hchain
    exact hchain.last_allocated hprev hother
  -- The next chunk is allocated, and nothing more is merged.
  have hstays : (region.allChunks next).isAllocated = true →
      NoFreeNeighbours region (front ++ [prev] ++ chunk :: next :: rest) →
      NoFreeNeighbours region₂ (front ++ prev :: next :: rest) := by
    intro hnext hchain
    apply noFreeNeighbours_freed hchain hmarked.not_mem hfrontOf List.suffix_rfl
      (hfrontLast hchain)
    · intro other hhead
      obtain rfl : next = other := by simpa using hhead
      exact hnext
    · exact hnodup₂.1
    · intro other hne hnePrev
      rw [hmerged₂.same other hnePrev, hmarked.same other hne]
  have hnext₁ := hmarked.next_eq
  rw [hmarked.marked_eq] at hinner hnext₁
  cases order with
  | innerCallFirst =>
      -- The pool cleared `next` of the chunk: the next one is not seen.
      refine ⟨region₂, _, _, ?_, hmerged₂.invariant, hstrategy,
        hmarked.marked_eq ▸ hsame₂, hmerged₂.head_first, ?_⟩
      · simp [MemoryRegion.freeChunk, hinner, hmerged₂.next_eq, MemoryRegion.coalesceChunks_null]
      · intro hkeeps
        refine hstays ?_
        by_contra hfree
        exact hkeeps ⟨rfl, by simpa using hfree, prev, hlastPrev, hprev⟩
  | nextFirst =>
      have hfree : ∀ result,
          region₂.coalesceChunks (some prev) (some next) = some result →
          region.freeChunk .nextFirst chunk = some result.1 := by
        intro result houter
        simp [MemoryRegion.freeChunk, hinner, hnext₁, houter]
      rcases hmerged₂.invariant.coalesce_next hmerged₂.free with
        ⟨houter, hnext⟩ | ⟨region₃, hnext, houter, hmerged₃⟩
      · rw [hnext₂] at hnext
        exact ⟨region₂, _, _, hfree _ houter, hmerged₂.invariant, hstrategy,
          hmarked.marked_eq ▸ hsame₂, hmerged₂.head_first, fun _ => hstays hnext⟩
      · refine ⟨region₃, _, _, hfree _ houter, hmerged₃.invariant,
          hmerged₃.strategy_eq.trans hstrategy,
          hmarked.marked_eq ▸ hsame₂.trans (hmerged₃.sameAllocated hmerged₂.free hnext),
          hmerged₃.head_first, ?_⟩
        intro _ hchain
        rw [hnext₂] at hnext
        apply noFreeNeighbours_freed hchain hmarked.not_mem hfrontOf
          (List.suffix_cons next rest) (hfrontLast hchain)
        · intro other hhead
          have hchain' : NoFreeNeighbours region
              ((front ++ [prev] ++ [chunk]) ++ next :: rest) := by
            simpa using hchain
          exact hchain'.head_allocated hnext hhead
        · intro hmem
          apply hnodup₂.1
          simp only [List.mem_append, List.mem_cons] at hmem ⊢
          tauto
        · intro other hne hnePrev
          rw [hmerged₃.same other hnePrev, hmerged₂.same other hnePrev,
            hmarked.same other hne]

theorem freeChunk
    {before rest : List (Fin n)} {chunk next : Fin n}
    (hinv : RegionInvariant bounds region (before ++ chunk :: next :: rest) pool)
    (order : ArgumentOrder) :
    ∃ region' records' pool',
      region.freeChunk order chunk = some region' ∧
        Freed bounds order region region' before chunk next rest records' pool' := by
  have hmarked := hinv.marked
  rcases hmarked.invariant.coalesce_prev hmarked.free hmarked.ne_last with
    ⟨hinner, hprev⟩ | ⟨front, prev, region₂, rfl, hprev, hinner, hmerged⟩
  · exact freeChunk_unmerged hmarked order hinner hprev
  · exact freeChunk_merged hmarked order hinner hprev hmerged

end RegionInvariant

end Pocl.Bufalloc
