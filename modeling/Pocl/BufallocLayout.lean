import Pocl.BufallocArithmetic

/-!
# Layout of the chunks of a region

The invariant of the allocator has two halves.  `HasLists` says which records
the two head pointers denote; it knows nothing about addresses.  `Layout` says
how the chunks of a region lie in memory: in address order, without overlap,
with the sentinel at the end.  It knows nothing about pointers.
-/

namespace Pocl.Bufalloc

variable {n : ℕ}

/-! ## The two lists of a region -/

structure HasLists
    (region : MemoryRegion n) (records pool : List (Fin n)) : Prop where
  chunks_list : IsDList region.links region.chunks records
  pool_list : IsDList region.links region.freeChunks pool
  disjoint : List.Disjoint records pool

namespace HasLists

variable {region : MemoryRegion n} {records pool : List (Fin n)}

theorem setChunk
    (hlists : HasLists region records pool) (chunk : Fin n) (info : ChunkInfo) :
    HasLists (region.setChunk chunk info) records pool :=
  ⟨hlists.chunks_list, hlists.pool_list, hlists.disjoint⟩

theorem deleteFromChunks
    (hlists : HasLists region records pool)
    {index : ℕ} {chunk : Fin n} (hchunk : records[index]? = some chunk) :
    ∃ links chunks,
      region.deleteFromChunks chunk =
          some { region with links := links, chunks := chunks } ∧
        HasLists { region with links := links, chunks := chunks }
          (records.eraseIdx index) pool := by
  obtain ⟨links, head, hdelete, hrecords, hframe⟩ :=
    hlists.chunks_list.delete hchunk
  refine ⟨links, head, by rw [MemoryRegion.deleteFromChunks, hdelete]; rfl,
    hrecords, ?_, ?_⟩
  · apply hlists.pool_list.congr
    intro record hrecord
    exact hframe record fun hmem => hlists.disjoint hmem hrecord
  · intro record hrecord hpool
    exact hlists.disjoint (List.mem_of_mem_eraseIdx hrecord) hpool

theorem appendToChunks
    (hlists : HasLists region records pool) {chunk : Fin n}
    (hrecords : chunk ∉ records) (hpool : chunk ∉ pool) :
    ∃ links chunks,
      region.appendToChunks chunk =
          some { region with links := links, chunks := chunks } ∧
        HasLists { region with links := links, chunks := chunks }
          (records ++ [chunk]) pool := by
  obtain ⟨links, head, happend, hlist, hframe⟩ :=
    hlists.chunks_list.append hrecords
  have hdisjoint : List.Disjoint (records ++ [chunk]) pool := by
    intro record hrecord hmem
    rcases List.mem_append.mp hrecord with hold | hnew
    · exact hlists.disjoint hold hmem
    · rw [List.mem_singleton] at hnew
      exact hpool (hnew ▸ hmem)
  refine ⟨links, head, by rw [MemoryRegion.appendToChunks, happend]; rfl,
    hlist, ?_, hdisjoint⟩
  apply hlists.pool_list.congr
  intro record hrecord
  exact hframe record fun hmem => hdisjoint hmem hrecord

theorem deleteFromFreeChunks
    (hlists : HasLists region records pool)
    {index : ℕ} {chunk : Fin n} (hchunk : pool[index]? = some chunk) :
    ∃ links freeChunks,
      region.deleteFromFreeChunks chunk =
          some { region with links := links, freeChunks := freeChunks } ∧
        HasLists { region with links := links, freeChunks := freeChunks }
          records (pool.eraseIdx index) := by
  obtain ⟨links, head, hdelete, hpool, hframe⟩ :=
    hlists.pool_list.delete hchunk
  refine ⟨links, head, by rw [MemoryRegion.deleteFromFreeChunks, hdelete]; rfl,
    ?_, hpool, ?_⟩
  · apply hlists.chunks_list.congr
    intro record hrecord
    exact hframe record fun hmem => hlists.disjoint hrecord hmem
  · intro record hrecord hmem
    exact hlists.disjoint hrecord (List.mem_of_mem_eraseIdx hmem)

theorem appendToFreeChunks
    (hlists : HasLists region records pool) {chunk : Fin n}
    (hrecords : chunk ∉ records) (hpool : chunk ∉ pool) :
    ∃ links freeChunks,
      region.appendToFreeChunks chunk =
          some { region with links := links, freeChunks := freeChunks } ∧
        HasLists { region with links := links, freeChunks := freeChunks }
          records (pool ++ [chunk]) := by
  obtain ⟨links, head, happend, hlist, hframe⟩ :=
    hlists.pool_list.append hpool
  have hdisjoint : List.Disjoint records (pool ++ [chunk]) := by
    intro record hrecord hmem
    rcases List.mem_append.mp hmem with hold | hnew
    · exact hlists.disjoint hrecord hold
    · rw [List.mem_singleton] at hnew
      exact hrecords (hnew ▸ hrecord)
  refine ⟨links, head, by rw [MemoryRegion.appendToFreeChunks, happend]; rfl,
    ?_, hlist, hdisjoint⟩
  apply hlists.chunks_list.congr
  intro record hrecord
  exact hframe record fun hmem => hdisjoint hrecord hmem

end HasLists

/-! ## The chunks in memory -/

def ChunkInfo.first (info : ChunkInfo) : ℕ :=
  info.startAddress.toNat

def ChunkInfo.finish (info : ChunkInfo) : ℕ :=
  info.startAddress.toNat + info.size.toNat

/-- A region as its client set it up: the byte range `[start, finish)` and the
exponent of its alignment. -/
structure RegionBounds where
  start : ℕ
  finish : ℕ
  exponent : ℕ
  start_lt_finish : start < finish
  finish_lt : finish < 2 ^ 64
  size_lt : finish - start < 2 ^ 31
  exponent_le : exponent ≤ 14

/-- How the chunks named by `records` lie in the region. -/
structure Layout
    (bounds : RegionBounds) (address : RegionAddress)
    (info : Fin n → ChunkInfo) (last : Fin n) (records : List (Fin n)) :
    Prop where
  nodup : records.Nodup
  last_eq : records.getLast? = some last
  last_free : (info last).isAllocated = false
  last_finish : (info last).finish = bounds.finish
  parent : ∀ chunk ∈ records, (info chunk).parentRegion = some address
  ordered :
    records.Pairwise fun a b => (info a).finish ≤ (info b).first
  positive : ∀ chunk ∈ records, chunk ≠ last → 0 < (info chunk).size.toNat
  aligned : ∀ chunk ∈ records, chunk ≠ last →
    2 ^ bounds.exponent ∣ (info chunk).first
  start_le : ∀ chunk ∈ records, bounds.start ≤ (info chunk).first
  head_first : ∀ chunk, records.head? = some chunk →
    (info chunk).first = alignUp bounds.exponent bounds.start ∨
      records = [last] ∧ (info last).first = bounds.start

namespace Layout

variable {bounds : RegionBounds} {address : RegionAddress}
  {info info' : Fin n → ChunkInfo} {last : Fin n} {records : List (Fin n)}

theorem split_last (hlayout : Layout bounds address info last records) :
    ∃ front, records = front ++ [last] := by
  obtain ⟨front, hfront⟩ := List.getLast?_eq_some_iff.mp hlayout.last_eq
  exact ⟨front, hfront⟩

theorem last_mem (hlayout : Layout bounds address info last records) :
    last ∈ records :=
  List.mem_of_getLast? hlayout.last_eq

theorem finish_le_last_first
    (hlayout : Layout bounds address info last records)
    {chunk : Fin n} (hchunk : chunk ∈ records) (hne : chunk ≠ last) :
    (info chunk).finish ≤ (info last).first := by
  obtain ⟨front, rfl⟩ := hlayout.split_last
  have hordered := (List.pairwise_append.mp hlayout.ordered).2.2
  rcases List.mem_append.mp hchunk with hfront | hlast
  · exact hordered chunk hfront last (List.mem_singleton_self last)
  · exact (hne (List.mem_singleton.mp hlast)).elim

theorem first_le_finish (chunk : ChunkInfo) : chunk.first ≤ chunk.finish :=
  Nat.le_add_right _ _

theorem finish_le
    (hlayout : Layout bounds address info last records)
    {chunk : Fin n} (hchunk : chunk ∈ records) :
    (info chunk).finish ≤ bounds.finish := by
  by_cases hlast : chunk = last
  · rw [hlast, hlayout.last_finish]
  · calc
      (info chunk).finish ≤ (info last).first :=
        hlayout.finish_le_last_first hchunk hlast
      _ ≤ (info last).finish := first_le_finish _
      _ = bounds.finish := hlayout.last_finish

theorem head_first_of_length
    (hlayout : Layout bounds address info last records)
    {chunk : Fin n} (hhead : records.head? = some chunk)
    (hlength : 1 < records.length) :
    (info chunk).first = alignUp bounds.exponent bounds.start := by
  rcases hlayout.head_first chunk hhead with hfirst | ⟨hsingle, _⟩
  · exact hfirst
  · simp [hsingle] at hlength

/-- Only addresses, sizes and owners matter, and that the sentinel stays
unallocated. -/
theorem congr
    (hlayout : Layout bounds address info last records)
    (hsame : ∀ chunk ∈ records,
      (info' chunk).startAddress = (info chunk).startAddress ∧
        (info' chunk).size = (info chunk).size ∧
        (info' chunk).parentRegion = (info chunk).parentRegion)
    (hlast : (info' last).isAllocated = false) :
    Layout bounds address info' last records := by
  have hfirst : ∀ chunk ∈ records, (info' chunk).first = (info chunk).first := by
    intro chunk hchunk
    rw [ChunkInfo.first, (hsame chunk hchunk).1, ChunkInfo.first]
  have hfinish : ∀ chunk ∈ records,
      (info' chunk).finish = (info chunk).finish := by
    intro chunk hchunk
    rw [ChunkInfo.finish, (hsame chunk hchunk).1, (hsame chunk hchunk).2.1,
      ChunkInfo.finish]
  refine ⟨hlayout.nodup, hlayout.last_eq, hlast, ?_, ?_, ?_, ?_, ?_, ?_, ?_⟩
  · rw [hfinish last hlayout.last_mem, hlayout.last_finish]
  · intro chunk hchunk
    rw [(hsame chunk hchunk).2.2, hlayout.parent chunk hchunk]
  · apply hlayout.ordered.imp_of_mem
    intro a b ha hb hle
    rw [hfinish a ha, hfirst b hb]
    exact hle
  · intro chunk hchunk hne
    rw [(hsame chunk hchunk).2.1]
    exact hlayout.positive chunk hchunk hne
  · intro chunk hchunk hne
    rw [hfirst chunk hchunk]
    exact hlayout.aligned chunk hchunk hne
  · intro chunk hchunk
    rw [hfirst chunk hchunk]
    exact hlayout.start_le chunk hchunk
  · intro chunk hhead
    rw [hfirst chunk (List.mem_of_mem_head? hhead),
      hfirst last hlayout.last_mem]
    exact hlayout.head_first chunk hhead

/-- Cutting a new chunk from the aligned start of the sentinel. -/
theorem cut
    {front : List (Fin n)} {fresh : Fin n}
    (hlayout : Layout bounds address info last (front ++ [last]))
    (hfresh : fresh ∉ front ++ [last])
    (hsame : ∀ chunk ∈ front, info' chunk = info chunk)
    (hfreshParent : (info' fresh).parentRegion = some address)
    (hfreshFirst :
      (info' fresh).first = alignUp bounds.exponent (info last).first)
    (hfreshSize : 0 < (info' fresh).size.toNat)
    (hlastParent : (info' last).parentRegion = some address)
    (hlastFree : (info' last).isAllocated = false)
    (hlastFirst : (info' last).first = (info' fresh).finish)
    (hlastFinish : (info' last).finish = bounds.finish) :
    Layout bounds address info' last (front ++ [fresh, last]) := by
  have hfrontNe : ∀ chunk ∈ front, chunk ≠ last := by
    intro chunk hchunk heq
    have hdisjoint := List.disjoint_of_nodup_append hlayout.nodup
    exact hdisjoint hchunk (heq ▸ List.mem_singleton_self chunk)
  have hfreshNe : fresh ≠ last := by
    intro heq
    exact hfresh (by simp [heq])
  have hbefore : ∀ chunk ∈ front, (info' chunk).finish ≤ (info' fresh).first := by
    intro chunk hchunk
    rw [hsame chunk hchunk, hfreshFirst]
    exact (hlayout.finish_le_last_first (by simp [hchunk])
      (hfrontNe chunk hchunk)).trans (le_alignUp _ _)
  have hstart : bounds.start ≤ (info' fresh).first := by
    rw [hfreshFirst]
    exact (hlayout.start_le last (by simp)).trans (le_alignUp _ _)
  have hmem : ∀ chunk, chunk ∈ front ++ [fresh, last] ↔
      chunk ∈ front ∨ chunk = fresh ∨ chunk = last := by
    intro chunk
    simp
  refine ⟨?_, by simp, hlastFree, hlastFinish, ?_, ?_, ?_, ?_, ?_, ?_⟩
  · have hnodup := hlayout.nodup
    simp only [List.nodup_append, List.mem_append, List.mem_singleton,
      not_or] at hnodup hfresh ⊢
    refine ⟨hnodup.1, by simp [hfreshNe], ?_⟩
    intro a ha b hb heq
    rcases List.mem_pair.mp hb with rfl | rfl
    · exact hfresh.1 (heq ▸ ha)
    · exact hfrontNe a ha heq
  · intro chunk hchunk
    rcases (hmem chunk).mp hchunk with hfront | rfl | rfl
    · rw [hsame chunk hfront]
      exact hlayout.parent chunk (by simp [hfront])
    · exact hfreshParent
    · exact hlastParent
  · rw [List.pairwise_append]
    refine ⟨?_, ?_, ?_⟩
    · apply (List.pairwise_append.mp hlayout.ordered).1.imp_of_mem
      intro a b ha hb hle
      rw [hsame a ha, hsame b hb]
      exact hle
    · simp [hlastFirst]
    · intro a ha b hb
      rcases List.mem_pair.mp hb with rfl | rfl
      · exact hbefore a ha
      · rw [hlastFirst]
        exact (hbefore a ha).trans (first_le_finish _)
  · intro chunk hchunk hne
    rcases (hmem chunk).mp hchunk with hfront | rfl | rfl
    · rw [hsame chunk hfront]
      exact hlayout.positive chunk (by simp [hfront]) hne
    · exact hfreshSize
    · exact (hne rfl).elim
  · intro chunk hchunk hne
    rcases (hmem chunk).mp hchunk with hfront | rfl | rfl
    · rw [hsame chunk hfront]
      exact hlayout.aligned chunk (by simp [hfront]) hne
    · rw [hfreshFirst]
      exact dvd_alignUp _ _
    · exact (hne rfl).elim
  · intro chunk hchunk
    rcases (hmem chunk).mp hchunk with hfront | rfl | rfl
    · rw [hsame chunk hfront]
      exact hlayout.start_le chunk (by simp [hfront])
    · exact hstart
    · rw [hlastFirst]
      exact hstart.trans (first_le_finish _)
  · intro chunk hhead
    left
    cases front with
    | nil =>
        simp only [List.nil_append, List.head?_cons, Option.some.injEq] at hhead
        subst hhead
        rw [hfreshFirst]
        rcases hlayout.head_first last rfl with hold | ⟨_, hold⟩
        · rw [hold]
          exact alignUp_of_dvd (dvd_alignUp _ _)
        · rw [hold]
    | cons c rest =>
        simp only [List.cons_append, List.head?_cons, Option.some.injEq] at hhead
        subst hhead
        rw [hsame c (by simp)]
        rcases hlayout.head_first c rfl with hold | ⟨hsingle, _⟩
        · exact hold
        · simp at hsingle

theorem merge_head_first
    {before after : List (Fin n)} {a b chunk : Fin n}
    (hlayout : Layout bounds address info last (before ++ a :: b :: after))
    (hsame : ∀ chunk, chunk ≠ a → info' chunk = info chunk)
    (hfirst : (info' a).first = (info a).first)
    (hhead : (before ++ a :: after).head? = some chunk) :
    (info' chunk).first = alignUp bounds.exponent bounds.start := by
  have hfirstEq : (info' chunk).first = (info chunk).first := by
    by_cases heq : chunk = a
    · rw [heq, hfirst]
    · rw [hsame chunk heq]
  have hhead' : (before ++ a :: b :: after).head? = some chunk := by
    cases before with
    | nil => exact hhead
    | cons c rest => exact hhead
  rw [hfirstEq]
  apply hlayout.head_first_of_length hhead'
  simp
  omega

section Merging

variable {before after : List (Fin n)} {a b : Fin n}

/-- The two chunks that are merged are different from one another and from the other chunks. -/
theorem merge_distinct
    (hlayout : Layout bounds address info last (before ++ a :: b :: after)) :
    a ≠ b ∧ (∀ chunk ∈ before, chunk ≠ a ∧ chunk ≠ b) ∧
      ∀ chunk ∈ after, chunk ≠ a ∧ chunk ≠ b := by
  have hnodup := hlayout.nodup
  simp only [List.nodup_append, List.nodup_cons, List.mem_cons] at hnodup
  obtain ⟨-, ⟨hfirst, hsecond, -⟩, hcross⟩ := hnodup
  refine ⟨fun heq => hfirst (.inl heq), ?_, ?_⟩
  · intro chunk hchunk
    exact ⟨hcross chunk hchunk a (.inl rfl), hcross chunk hchunk b (.inr (.inl rfl))⟩
  · intro chunk hchunk
    exact ⟨fun heq => hfirst (.inr (heq ▸ hchunk)), fun heq => hsecond (heq ▸ hchunk)⟩

theorem merge_first_ne_last
    (hlayout : Layout bounds address info last (before ++ a :: b :: after)) : a ≠ last := by
  intro heq
  obtain ⟨hab, -, hafter⟩ := hlayout.merge_distinct
  have hlast := hlayout.last_eq
  have hmem : a ∈ b :: after := by
    rw [List.getLast?_append_cons] at hlast
    simp only [List.getLast?_cons_cons] at hlast
    exact heq ▸ List.mem_of_getLast? hlast
  obtain heq | hmem := List.mem_cons.mp hmem
  · exact hab heq
  · exact (hafter a hmem).1 rfl

theorem merge_last_eq
    (hlayout : Layout bounds address info last (before ++ a :: b :: after))
    (hmem : last ∈ before ++ a :: after) : (if last = b then a else last) = last := by
  obtain ⟨hab, hbefore, hafter⟩ := hlayout.merge_distinct
  refine if_neg ?_
  rintro rfl
  obtain hchunk | hchunk := List.mem_append.mp hmem
  · exact (hbefore last hchunk).2 rfl
  · obtain heq | hchunk := List.mem_cons.mp hchunk
    · exact hab heq.symm
    · exact (hafter last hchunk).2 rfl

theorem merge_getLast?
    (hlayout : Layout bounds address info last (before ++ a :: b :: after)) :
    (before ++ a :: after).getLast? = some (if last = b then a else last) := by
  have hlast := hlayout.last_eq
  simp only [List.getLast?_append_cons, List.getLast?_cons_cons] at hlast ⊢
  cases after with
  | nil =>
      simp only [List.getLast?_singleton, Option.some.injEq] at hlast ⊢
      simp [hlast]
  | cons c rest =>
      simp only [List.getLast?_cons_cons] at hlast ⊢
      have hmem := List.mem_of_getLast? hlast
      rw [hlast, hlayout.merge_last_eq (by simp [List.mem_cons.mp hmem])]

theorem merge_ordered
    (hlayout : Layout bounds address info last (before ++ a :: b :: after))
    (hfirst : ∀ chunk, (info' chunk).first = (info chunk).first)
    (hfinish : ∀ chunk, chunk ≠ a → (info' chunk).finish = (info chunk).finish)
    (hmerged : (info' a).finish = (info b).finish) :
    (before ++ a :: after).Pairwise fun c d => (info' c).finish ≤ (info' d).first := by
  obtain ⟨-, hbefore, hafter⟩ := hlayout.merge_distinct
  have hordered := hlayout.ordered
  simp only [List.pairwise_append, List.pairwise_cons, List.mem_cons] at hordered ⊢
  obtain ⟨hbeforePair, ⟨-, hbAfter, hafterPair⟩, hcross⟩ := hordered
  refine ⟨?_, ⟨?_, ?_⟩, ?_⟩
  · apply hbeforePair.imp_of_mem
    intro c d hc _ hcd
    rw [hfinish c (hbefore c hc).1, hfirst d]
    exact hcd
  · intro c hc
    rw [hmerged, hfirst c]
    exact hbAfter c hc
  · apply hafterPair.imp_of_mem
    intro c d hc _ hcd
    rw [hfinish c (hafter c hc).1, hfirst d]
    exact hcd
  · intro c hc d hd
    rw [hfinish c (hbefore c hc).1, hfirst d]
    rcases hd with rfl | hd
    · exact hcross c hc d (.inl rfl)
    · exact hcross c hc d (.inr (.inr hd))

/-- Merging two neighbours into the first one. -/
theorem merge
    (hlayout : Layout bounds address info last (before ++ a :: b :: after))
    (hsame : ∀ chunk, chunk ≠ a → info' chunk = info chunk)
    (hparent : (info' a).parentRegion = (info a).parentRegion)
    (hfirst : (info' a).first = (info a).first)
    (hfinish : (info' a).finish = (info b).finish)
    (hfree : (info' a).isAllocated = false) :
    Layout bounds address info' (if last = b then a else last)
      (before ++ a :: after) := by
  have hsublist :
      List.Sublist (before ++ a :: after) (before ++ a :: b :: after) :=
    (List.Sublist.refl before).append
      (List.Sublist.cons_cons a (List.sublist_cons_self b after))
  have ha : a ∈ before ++ a :: b :: after := by simp
  have haLast := hlayout.merge_first_ne_last
  have hle : (info a).finish ≤ (info b).first := by
    have hordered := (List.pairwise_append.mp hlayout.ordered).2.1
    exact (List.pairwise_cons.mp hordered).1 b (by simp)
  have hfinishEq : ∀ chunk, chunk ≠ a →
      (info' chunk).finish = (info chunk).finish := by
    intro chunk hne
    rw [hsame chunk hne]
  have hfirstEq : ∀ chunk, (info' chunk).first = (info chunk).first := by
    intro chunk
    by_cases heq : chunk = a
    · rw [heq, hfirst]
    · rw [hsame chunk heq]
  have hneLast : ∀ chunk ∈ before ++ a :: after,
      chunk ≠ (if last = b then a else last) → chunk ≠ last := by
    rintro chunk hchunk hne rfl
    exact hne (hlayout.merge_last_eq hchunk).symm
  refine ⟨hlayout.nodup.sublist hsublist, hlayout.merge_getLast?, ?_, ?_, ?_,
    hlayout.merge_ordered hfirstEq hfinishEq hfinish, ?_, ?_, ?_, ?_⟩
  · split
    · exact hfree
    · rw [hsame last (Ne.symm haLast)]
      exact hlayout.last_free
  · split
    next heq =>
      rw [hfinish, ← heq, hlayout.last_finish]
    next =>
      rw [hfinishEq last (Ne.symm haLast), hlayout.last_finish]
  · intro chunk hchunk
    by_cases heq : chunk = a
    · rw [heq, hparent]
      exact hlayout.parent a ha
    · rw [hsame chunk heq]
      exact hlayout.parent chunk (hsublist.subset hchunk)
  · intro chunk hchunk hne
    by_cases heq : chunk = a
    · have hpositive := hlayout.positive a ha haLast
      subst heq
      unfold ChunkInfo.first ChunkInfo.finish at *
      omega
    · rw [hsame chunk heq]
      exact hlayout.positive chunk (hsublist.subset hchunk)
        (hneLast chunk hchunk hne)
  · intro chunk hchunk hne
    rw [hfirstEq chunk]
    exact hlayout.aligned chunk (hsublist.subset hchunk)
      (hneLast chunk hchunk hne)
  · intro chunk hchunk
    rw [hfirstEq chunk]
    exact hlayout.start_le chunk (hsublist.subset hchunk)
  · intro chunk hhead
    exact .inl (hlayout.merge_head_first hsame hfirst hhead)

end Merging

end Layout

end Pocl.Bufalloc
