import Pocl.BufallocLists

/-!
# Merging a freed chunk with its neighbours

`free_chunk` merges the chunk into the one before it, and the next one into the result.
What this does to the lists, for any addresses and sizes; a merge only happens if the
second chunk does not start in front of the first one.

The `prev` of the first chunk is the sentinel.  If it does not start behind the first
chunk, the two are merged, and if there is no other chunk the sentinel is then merged
with itself: it leaves the list of the chunks.
-/

namespace Pocl.Bufalloc

variable {n : ℕ}

/-- The sentinel is at the end of the chunks, or of the other list if there are no
chunks. -/
structure Linked (region : MemoryRegion n) (records pool : List (Fin n)) : Prop where
  lists : HasLists region records pool
  last_eq : records.getLast? = some region.lastChunk ∨
    records = [] ∧ pool.getLast? = some region.lastChunk
  last_free : (region.allChunks region.lastChunk).isAllocated = false
  parent : ∀ chunk ∈ records,
    (region.allChunks chunk).parentRegion = some region.address

/-- The chunk `b` is merged into `a`.  The sentinel is only merged into the chunk before
it, or into itself. -/
structure MergesPair
    (region : MemoryRegion n) (records pool : List (Fin n)) (region' : MemoryRegion n)
    (a b : Fin n) : Prop where
  mem_first : a ∈ records
  mem_second : b ∈ records
  first_free : (region.allChunks a).isAllocated = false
  second_free : (region.allChunks b).isAllocated = false
  start_le : (region.allChunks a).first ≤ (region.allChunks b).first
  last : b = region.lastChunk →
    (∃ before, records = before ++ [a, b]) ∨ a = b ∧ records = [b]
  joined : Joined region region' a b
  lists : HasLists region' (records.erase b) (pool ++ [b])

/-- Merges of different chunks, and the two merges that leave no chunk. -/
inductive Merges :
    MemoryRegion n → List (Fin n) → List (Fin n) →
      MemoryRegion n → List (Fin n) → List (Fin n) → Prop
  | refl (region : MemoryRegion n) (records pool : List (Fin n)) :
      Merges region records pool region records pool
  | step {region region' region'' : MemoryRegion n}
      {records pool records'' pool'' : List (Fin n)} {a b : Fin n} (hne : a ≠ b)
      (hpair : MergesPair region records pool region' a b)
      (hrest : Merges region' (records.erase b) (pool ++ [b]) region'' records'' pool'') :
      Merges region records pool region'' records'' pool''
  | empty {region region' region'' : MemoryRegion n} {pool : List (Fin n)}
      {first last : Fin n} (hne : first ≠ last)
      (hpair : MergesPair region [first, last] pool region' last first)
      (hself : MergesPair region' [last] (pool ++ [first]) region'' last last) :
      Merges region [first, last] pool region'' [] (pool ++ [first] ++ [last])

/-- The allocated chunks stay as they are. -/
def KeepsAllocated
    (region : MemoryRegion n) (records : List (Fin n))
    (region' : MemoryRegion n) (records' : List (Fin n)) : Prop :=
  ∀ chunk ∈ records, (region.allChunks chunk).isAllocated = true →
    chunk ∈ records' ∧ region'.allChunks chunk = region.allChunks chunk

namespace KeepsAllocated

variable {region region' region'' : MemoryRegion n}
  {records records' records'' : List (Fin n)}

theorem refl (region : MemoryRegion n) (records : List (Fin n)) :
    KeepsAllocated region records region records :=
  fun _ hmem _ => ⟨hmem, rfl⟩

theorem trans
    (hfirst : KeepsAllocated region records region' records')
    (hsecond : KeepsAllocated region' records' region'' records'') :
    KeepsAllocated region records region'' records'' := by
  intro chunk hmem halloc
  obtain ⟨hmem', hsame⟩ := hfirst chunk hmem halloc
  obtain ⟨hmem'', hsame'⟩ := hsecond chunk hmem' (by rw [hsame, halloc])
  exact ⟨hmem'', hsame'.trans hsame⟩

end KeepsAllocated

theorem Chained.linked {region : MemoryRegion n} {records pool : List (Fin n)}
    (hchained : Chained region records pool) : Linked region records pool :=
  ⟨hchained.lists, .inl hchained.last_eq, hchained.last_free, hchained.parent⟩

theorem MergesPair.keepsAllocated
    {region region' : MemoryRegion n} {records pool : List (Fin n)} {a b : Fin n}
    (hpair : MergesPair region records pool region' a b) :
    KeepsAllocated region records region' (records.erase b) := by
  intro chunk hmem halloc
  have hneA : chunk ≠ a := by
    rintro rfl
    rw [hpair.first_free] at halloc
    cases halloc
  have hneB : chunk ≠ b := by
    rintro rfl
    rw [hpair.second_free] at halloc
    cases halloc
  exact ⟨(List.mem_erase_of_ne hneB).mpr hmem, hpair.joined.same chunk hneA⟩

theorem MergesPair.ne_last
    {region region' : MemoryRegion n} {records pool : List (Fin n)} {a b chunk : Fin n}
    (hpair : MergesPair region records pool region' a b)
    (hlinked : Linked region records pool) (hmem : chunk ∈ records.erase b)
    (hne : chunk ≠ region'.lastChunk) : chunk ≠ region.lastChunk := by
  rintro rfl
  rw [hpair.joined.last_eq, if_neg] at hne
  · exact hne rfl
  · intro heq
    exact hlinked.lists.chunks_list.nodup.not_mem_erase (heq ▸ hmem)

theorem Merges.keepsAllocated
    {region region' : MemoryRegion n} {records pool records' pool' : List (Fin n)}
    (hmerges : Merges region records pool region' records' pool') :
    KeepsAllocated region records region' records' := by
  induction hmerges with
  | refl => exact .refl _ _
  | step hne hpair hrest ih => exact hpair.keepsAllocated.trans ih
  | empty hne hpair hself =>
      have hkeeps := hpair.keepsAllocated
      rw [List.erase_cons_head] at hkeeps
      have hkeeps' := hself.keepsAllocated
      rw [List.erase_cons_head] at hkeeps'
      exact hkeeps.trans hkeeps'

theorem Placed.keepsAllocated
    {region region' : MemoryRegion n} {front rest : List (Fin n)} {fresh : Fin n}
    {size : BitVec 64} (hplaced : Placed region region' fresh size)
    (hchained : Chained region (front ++ [region.lastChunk]) (fresh :: rest)) :
    KeepsAllocated region (front ++ [region.lastChunk]) region'
      (front ++ [fresh, region.lastChunk]) := by
  intro chunk hmem halloc
  have hfront : chunk ∈ front := by
    rw [List.mem_append, List.mem_singleton] at hmem
    refine hmem.resolve_right ?_
    rintro rfl
    rw [hchained.last_free] at halloc
    cases halloc
  exact ⟨by simp [hfront], hchained.same_of_placed hplaced chunk hfront⟩

theorem KeepsAllocated.setAllocated
    {region : MemoryRegion n} {chunk : Fin n} (records : List (Fin n))
    (hfree : (region.allChunks chunk).isAllocated = false) :
    KeepsAllocated region records
      (region.setChunk chunk { region.allChunks chunk with isAllocated := true })
      records := by
  intro other hother halloc
  have hne : other ≠ chunk := by
    rintro rfl
    rw [hfree] at halloc
    cases halloc
  exact ⟨hother, region.setChunk_of_ne hne _⟩

namespace Linked

variable {region region' : MemoryRegion n} {records pool : List (Fin n)} {a b : Fin n}

theorem chained (hlinked : Linked region records pool) (hrecords : records ≠ []) :
    Chained region records pool :=
  ⟨hlinked.lists, hlinked.last_eq.resolve_right fun hnil => hrecords hnil.1,
    hlinked.last_free, hlinked.parent⟩

theorem setAllocated
    (hlinked : Linked region records pool) {chunk : Fin n}
    (hne : chunk ≠ region.lastChunk) (flag : Bool) :
    Linked
      (region.setChunk chunk { region.allChunks chunk with isAllocated := flag })
      records pool := by
  refine ⟨hlinked.lists.setChunk _ _, hlinked.last_eq, ?_, ?_⟩
  · have hlast := region.setChunk_of_ne hne.symm
      { region.allChunks chunk with isAllocated := flag }
    exact (congrArg ChunkInfo.isAllocated hlast).trans hlinked.last_free
  · intro other hmem
    refine Eq.trans ?_ (hlinked.parent other hmem)
    by_cases heq : other = chunk
    · rw [heq, region.setChunk_self]
    · rw [region.setChunk_of_ne heq]

theorem mergesPair
    (hlinked : Linked region records pool)
    (hpair : MergesPair region records pool region' a b) :
    Linked region' (records.erase b) (pool ++ [b]) := by
  have hjoined := hpair.joined
  have hnodup := hlinked.lists.chunks_list.nodup
  have hfree : (region'.allChunks a).isAllocated = false := by
    rw [hjoined.first_info]
    exact hpair.first_free
  refine ⟨hpair.lists, ?_, ?_, ?_⟩
  · rw [hjoined.last_eq]
    by_cases heq : region.lastChunk = b
    · rw [if_pos heq]
      obtain ⟨before, hrecords⟩ | ⟨hself, hrecords⟩ := hpair.last heq.symm
      · left
        have hsplit : before ++ [a, b] = before ++ [a] ++ [b] := by simp
        rw [hrecords, hsplit] at hnodup
        have hnot : b ∉ before ++ [a] := fun hmem =>
          List.disjoint_of_nodup_append hnodup hmem (by simp)
        rw [hrecords, hsplit, List.erase_append_right _ hnot]
        simp
      · right
        rw [hrecords, hself]
        simp
    · rw [if_neg heq]
      left
      have hlast := (hlinked.chained (List.ne_nil_of_mem hpair.mem_second)).last_eq
      obtain ⟨front, hfront⟩ := List.getLast?_eq_some_iff.mp hlast
      have hmem : b ∈ front := by
        have hold := hpair.mem_second
        rw [hfront, List.mem_append, List.mem_singleton] at hold
        exact hold.resolve_right fun hsame => heq hsame.symm
      rw [hfront, List.erase_append_left _ hmem]
      simp
  · rw [hjoined.last_eq]
    split
    · exact hfree
    · by_cases heq : region.lastChunk = a
      · rw [heq]
        exact hfree
      · rw [hjoined.same _ heq]
        exact hlinked.last_free
  · intro chunk hmem
    rw [hjoined.address_eq, ← hlinked.parent chunk (List.mem_of_mem_erase hmem)]
    by_cases heq : chunk = a
    · rw [heq, hjoined.first_info]
    · rw [hjoined.same chunk heq]

/-- The outcomes of `coalesce_chunks` for two chunks of the list. -/
theorem coalesceChunks
    (hlinked : Linked region records pool) (ha : a ∈ records) (hb : b ∈ records)
    (hlast : b = region.lastChunk →
      (∃ before, records = before ++ [a, b]) ∨ a = b ∧ records = [b]) :
    region.coalesceChunks (some a) (some b) = some (region, some b) ∨
      ∃ region',
        region.coalesceChunks (some a) (some b) = some (region', some a) ∧
          MergesPair region records pool region' a b := by
  by_cases halloc : (region.allChunks a).isAllocated = true ∨
      (region.allChunks b).isAllocated = true
  · exact .inl (MemoryRegion.coalesceChunks_of_allocated halloc)
  · by_cases hlt : (region.allChunks b).startAddress < (region.allChunks a).startAddress
    · exact .inl (MemoryRegion.coalesceChunks_of_lt hlt)
    · right
      rw [not_or, Bool.not_eq_true, Bool.not_eq_true] at halloc
      obtain ⟨region', hcoalesce, hjoined, hlists⟩ :=
        hlinked.lists.mergeChunks hb halloc.1 halloc.2 hlt
          ⟨hlinked.parent a ha, hlinked.parent b hb⟩
      exact ⟨region', hcoalesce, ha, hb, halloc.1, halloc.2, not_lt.mp hlt, hlast,
        hjoined, hlists⟩

/-- The `prev` of a chunk is the one before it, and the sentinel for the first one. -/
theorem prev_cases
    {before after : List (Fin n)} {chunk : Fin n}
    (hlinked : Linked region (before ++ chunk :: after) pool) :
    ∃ prev, region.links.prev chunk = some prev ∧ prev ∈ before ++ chunk :: after ∧
      (before = [] ∧ prev = region.lastChunk ∨ ∃ front, before = front ++ [prev]) := by
  have hlast := (hlinked.chained (by simp)).last_eq
  rcases List.eq_nil_or_concat before with rfl | ⟨front, prev, rfl⟩
  · refine ⟨region.lastChunk, ?_, List.mem_of_getLast? hlast, .inl ⟨rfl, rfl⟩⟩
    rw [hlinked.lists.chunks_list.prev_head chunk rfl]
    exact hlast
  · rw [List.concat_eq_append] at *
    refine ⟨prev, ?_, by simp, .inr ⟨front, rfl⟩⟩
    rw [hlinked.lists.chunks_list.prev_eq front.length chunk (by simp)]
    simp

theorem rest_nil
    {before rest : List (Fin n)} {chunk next : Fin n}
    (hlinked : Linked region (before ++ chunk :: next :: rest) pool)
    (hnext : next = region.lastChunk) : rest = [] := by
  have hlast := (hlinked.chained (by simp)).last_eq
  cases rest with
  | nil => rfl
  | cons other rest =>
      rw [List.getLast?_append_cons, List.getLast?_cons_cons,
        List.getLast?_cons_cons] at hlast
      have hmem := List.mem_of_getLast? hlast
      have hnodup := hlinked.lists.chunks_list.nodup
      simp only [List.nodup_append, List.nodup_cons] at hnodup
      exact (hnodup.2.1.2.1 (hnext ▸ hmem)).elim

/-- The outer call, after the inner one has merged the freed chunk. -/
theorem coalesce_next
    {before rest : List (Fin n)} {prev chunk next : Fin n}
    (hlinked : Linked region (before ++ chunk :: next :: rest) pool)
    (hprev : before = [] ∧ prev = region.lastChunk ∨ ∃ front, before = front ++ [prev])
    (hne : chunk ≠ region.lastChunk)
    (hpair : MergesPair region (before ++ chunk :: next :: rest) pool region' prev
      chunk) :
    ∃ region'' result records'' pool'',
      region'.coalesceChunks (some prev) (some next) = some (region'', result) ∧
        Merges region (before ++ chunk :: next :: rest) pool
          region'' records'' pool'' := by
  have hnodup := hlinked.lists.chunks_list.nodup
  have hbefore : chunk ∉ before := fun hmem =>
    List.disjoint_of_nodup_append hnodup hmem (by simp)
  have herase : (before ++ chunk :: next :: rest).erase chunk =
      before ++ next :: rest := by
    rw [List.erase_append_right _ hbefore, List.erase_cons_head]
  have hlast' : region'.lastChunk = region.lastChunk := by
    rw [hpair.joined.last_eq, if_neg hne.symm]
  have hmerged := hlinked.mergesPair hpair
  have hprevNe : prev ≠ chunk := by
    rcases hprev with ⟨_, rfl⟩ | ⟨front, rfl⟩
    · exact hne.symm
    · rintro rfl
      exact hbefore (by simp)
  have hprevMem : prev ∈ (before ++ chunk :: next :: rest).erase chunk :=
    (List.mem_erase_of_ne hprevNe).mpr hpair.mem_first
  have hnextMem : next ∈ (before ++ chunk :: next :: rest).erase chunk := by
    rw [herase]
    simp
  have hneighbour : next = region'.lastChunk →
      (∃ front, (before ++ chunk :: next :: rest).erase chunk = front ++ [prev, next]) ∨
        prev = next ∧ (before ++ chunk :: next :: rest).erase chunk = [next] := by
    intro hnext
    rw [herase, hlinked.rest_nil (hnext.trans hlast')]
    rcases hprev with ⟨rfl, rfl⟩ | ⟨front, rfl⟩
    · exact .inr ⟨(hnext.trans hlast').symm, rfl⟩
    · exact .inl ⟨front, by simp⟩
  rcases hmerged.coalesceChunks hprevMem hnextMem hneighbour with
    hstays | ⟨region'', hcoalesce, hpair'⟩
  · exact ⟨region', _, _, _, hstays, .step hprevNe hpair (.refl _ _ _)⟩
  · by_cases hself : prev = next
    · -- The sentinel is the only chunk that is left.
      have hbeforeNil : before = [] := by
        rcases hprev with ⟨hnil, _⟩ | ⟨front, rfl⟩
        · exact hnil
        · rw [hself, List.append_assoc] at hnodup
          simp [List.nodup_append] at hnodup
      have hlastPrev : prev = region.lastChunk := by
        rcases hprev with ⟨_, hlast⟩ | ⟨front, hfront⟩
        · exact hlast
        · rw [hfront] at hbeforeNil
          simp at hbeforeNil
      have hrest : rest = [] := hlinked.rest_nil (hself ▸ hlastPrev)
      subst hbeforeNil hrest hself
      refine ⟨region'', _, _, _, hcoalesce, .empty hprevNe.symm hpair ?_⟩
      rwa [herase] at hpair'
    · exact ⟨region'', _, _, _, hcoalesce,
        .step hprevNe hpair (.step hself hpair' (.refl _ _ _))⟩

/-- Freeing an allocated chunk marks it and merges chunks. -/
theorem freeChunk
    (hlinked : Linked region records pool) {chunk : Fin n} (hmem : chunk ∈ records)
    (hne : chunk ≠ region.lastChunk) (order : ArgumentOrder) :
    ∃ region' records' pool',
      region.freeChunk order chunk = some region' ∧
        Merges (region.setChunk chunk
            { region.allChunks chunk with isAllocated := false })
          records pool region' records' pool' := by
  obtain ⟨before, next, rest, rfl⟩ : ∃ before next rest,
      records = before ++ chunk :: next :: rest := by
    obtain ⟨before, after, hrecords⟩ := List.append_of_mem hmem
    cases after with
    | nil =>
        have hlast := (hlinked.chained (List.ne_nil_of_mem hmem)).last_eq
        rw [hrecords, List.getLast?_append_cons, List.getLast?_singleton,
          Option.some.injEq] at hlast
        exact (hne hlast).elim
    | cons next rest => exact ⟨before, next, rest, hrecords⟩
  have hmarked := hlinked.setAllocated hne false
  set region₁ := region.setChunk chunk
    { region.allChunks chunk with isAllocated := false } with hregion₁
  have hnext : region₁.links.next chunk = some next := by
    rw [hmarked.lists.chunks_list.next_eq before.length chunk (by simp)]
    simp
  obtain ⟨prev, hprev, hprevMem, hcases⟩ := hmarked.prev_cases
  rcases hmarked.coalesceChunks hprevMem hmem (fun hlast => (hne hlast).elim) with
    hinner | ⟨region₂, hinner, hpair⟩
  · have hneighbour : next = region₁.lastChunk →
        (∃ front, before ++ chunk :: next :: rest = front ++ [chunk, next]) ∨
          chunk = next ∧ before ++ chunk :: next :: rest = [next] := by
      intro hlast
      rw [hmarked.rest_nil hlast]
      exact .inl ⟨before, rfl⟩
    have hneNext : chunk ≠ next := by
      have hnodup := hmarked.lists.chunks_list.nodup
      rintro rfl
      simp [List.nodup_append] at hnodup
    rcases hmarked.coalesceChunks hmem (by simp) hneighbour with
      houter | ⟨region', houter, hpair⟩
    · refine ⟨region₁, _, _, ?_, .refl _ _ _⟩
      cases order <;>
        simp [MemoryRegion.freeChunk, ← hregion₁, hprev, hinner, hnext, houter]
    · refine ⟨region', _, _, ?_, .step hneNext hpair (.refl _ _ _)⟩
      cases order <;>
        simp [MemoryRegion.freeChunk, ← hregion₁, hprev, hinner, hnext, houter]
  · have hprevNe : prev ≠ chunk := by
      rcases hcases with ⟨_, rfl⟩ | ⟨front, rfl⟩
      · exact hne.symm
      · rintro rfl
        have hnodup := hmarked.lists.chunks_list.nodup
        simp [List.nodup_append] at hnodup
    cases order with
    | innerCallFirst =>
        refine ⟨region₂, _, _, ?_, .step hprevNe hpair (.refl _ _ _)⟩
        simp [MemoryRegion.freeChunk, ← hregion₁, hprev, hinner, hpair.joined.next_eq,
          MemoryRegion.coalesceChunks_null]
    | nextFirst =>
        obtain ⟨region', result, records', pool', houter, hmerges⟩ :=
          hmarked.coalesce_next hcases hne hpair
        refine ⟨region', records', pool', ?_, hmerges⟩
        simp [MemoryRegion.freeChunk, ← hregion₁, hprev, hinner, hnext, houter]

end Linked

end Pocl.Bufalloc
