import Pocl.BufallocLayout

/-!
# The lists of a region under the allocator operations

What the operations do to the two lists and to the chunk records, for any
addresses, sizes and results of the fit test.  Nothing is assumed about where
the chunks lie; the sentinel only has to be the unallocated tail of the list.
-/

namespace Pocl.Bufalloc

variable {n : ℕ}

/-- The slack of a chunk as `chunk_slack` computes it. -/
def MemoryRegion.slackBits
    (region : MemoryRegion n) (chunk : Fin n) (size : BitVec 64) : BitVec 32 :=
  ((region.allChunks chunk).startAddress + (region.allChunks chunk).size -
    (alignAddress region.alignment (region.allChunks chunk).startAddress +
      size)).setWidth 32

/-- The fit test lets the request into the chunk. -/
def Accepts (region : MemoryRegion n) (size : BitVec 64) (chunk : Fin n) :
    Prop :=
  0 ≤ (region.slackBits chunk size).toInt

instance (region : MemoryRegion n) (size : BitVec 64) :
    DecidablePred (Accepts region size) := fun _ =>
  inferInstanceAs (Decidable (_ ≤ _))

/-- The search loop takes the chunk. -/
def Taken (region : MemoryRegion n) (size : BitVec 64) (chunk : Fin n) : Prop :=
  chunk ≠ region.lastChunk ∧ (region.allChunks chunk).isAllocated = false ∧
    Accepts region size chunk

instance (region : MemoryRegion n) (size : BitVec 64) :
    DecidablePred (Taken region size) := fun _ =>
  inferInstanceAs (Decidable (_ ∧ _ ∧ _))

/-- The chunks are on one list with the unallocated sentinel at the end, the
unused records on the other. -/
structure Chained
    (region : MemoryRegion n) (records pool : List (Fin n)) : Prop where
  lists : HasLists region records pool
  last_eq : records.getLast? = some region.lastChunk
  last_free : (region.allChunks region.lastChunk).isAllocated = false
  parent : ∀ chunk ∈ records,
    (region.allChunks chunk).parentRegion = some region.address

/-- The record `fresh` became an allocated chunk in front of the sentinel. -/
structure Placed
    (region region' : MemoryRegion n) (fresh : Fin n) (size : BitVec 64) :
    Prop where
  address_eq : region'.address = region.address
  alignment_eq : region'.alignment = region.alignment
  strategy_eq : region'.strategy = region.strategy
  last_eq : region'.lastChunk = region.lastChunk
  fresh_info : region'.allChunks fresh =
    { startAddress := alignAddress region.alignment
        (region.allChunks region.lastChunk).startAddress
      isAllocated := true
      size := size
      parentRegion := some region.address }
  last_info : region'.allChunks region.lastChunk =
    { region.allChunks region.lastChunk with
      size := (region.slackBits region.lastChunk size).signExtend 64
      startAddress := alignAddress region.alignment
        (region.allChunks region.lastChunk).startAddress + size }
  same : ∀ chunk, chunk ≠ fresh → chunk ≠ region.lastChunk →
    region'.allChunks chunk = region.allChunks chunk

/-- The chunk `b` was merged into `a`. -/
structure Joined
    (region region' : MemoryRegion n) (a b : Fin n) : Prop where
  address_eq : region'.address = region.address
  alignment_eq : region'.alignment = region.alignment
  strategy_eq : region'.strategy = region.strategy
  last_eq : region'.lastChunk =
    if region.lastChunk = b then a else region.lastChunk
  first_info : region'.allChunks a =
    { region.allChunks a with
      size := (region.allChunks b).startAddress + (region.allChunks b).size -
        (region.allChunks a).startAddress }
  same : ∀ chunk, chunk ≠ a → region'.allChunks chunk = region.allChunks chunk
  next_eq : region'.links.next b = none

namespace MemoryRegion

variable {region : MemoryRegion n}

theorem coalesceChunks_null (first : Fin n) :
    region.coalesceChunks (some first) none = some (region, some first) :=
  rfl

theorem coalesceChunks_of_allocated
    {first second : Fin n}
    (halloc : (region.allChunks first).isAllocated = true ∨
      (region.allChunks second).isAllocated = true) :
    region.coalesceChunks (some first) (some second) =
      some (region, some second) := by
  simp [MemoryRegion.coalesceChunks, halloc]

theorem coalesceChunks_of_lt
    {first second : Fin n}
    (hlt : (region.allChunks second).first < (region.allChunks first).first) :
    region.coalesceChunks (some first) (some second) =
      some (region, some second) := by
  have hbv : (region.allChunks second).startAddress <
      (region.allChunks first).startAddress := hlt
  simp [MemoryRegion.coalesceChunks, hbv]

end MemoryRegion

namespace HasLists

variable {region : MemoryRegion n} {records pool : List (Fin n)}

theorem fresh_separate
    {front rest : List (Fin n)} {fresh last : Fin n}
    (hlists : HasLists region (front ++ [last]) (fresh :: rest)) :
    fresh ∉ front ++ [last] ∧ fresh ∉ rest ∧ last ∉ rest ∧ last ≠ fresh ∧
      last ∉ front := by
  have hlast : last ∈ front ++ [last] := by simp
  have hfresh : fresh ∉ front ++ [last] :=
    fun hmem => hlists.disjoint hmem (by simp)
  refine ⟨hfresh, (List.nodup_cons.mp hlists.pool_list.nodup).1, ?_, ?_, ?_⟩
  · intro hmem
    exact hlists.disjoint hlast (by simp [hmem])
  · intro heq
    exact hfresh (heq ▸ hlast)
  · intro hmem
    exact List.disjoint_of_nodup_append hlists.chunks_list.nodup hmem (by simp)

theorem placeNewChunk
    {front rest : List (Fin n)} {fresh : Fin n}
    (hlists : HasLists region (front ++ [region.lastChunk]) (fresh :: rest))
    (hparent : (region.allChunks region.lastChunk).parentRegion =
      some region.address)
    (size : BitVec 64) :
    ∃ region',
      region.placeNewChunk fresh size = some region' ∧
        Placed region region' fresh size ∧
        HasLists region' (front ++ [fresh, region.lastChunk]) rest := by
  obtain ⟨hfreshRecords, hfreshRest, hlastRest, hlastFresh, hlastFront⟩ :=
    hlists.fresh_separate
  obtain ⟨links₁, free₁, hdelete₁, hlists₁⟩ :=
    hlists.deleteFromFreeChunks
      (show (fresh :: rest)[0]? = some fresh from rfl)
  let region₂ : MemoryRegion n :=
    ({ region with links := links₁, freeChunks := free₁ } :
      MemoryRegion n).setChunk fresh
        { startAddress := alignAddress region.alignment
            (region.allChunks region.lastChunk).startAddress
          isAllocated := true
          size := size
          parentRegion := some region.address }
  have hlast₂ : region₂.allChunks region.lastChunk =
      region.allChunks region.lastChunk :=
    Function.update_of_ne hlastFresh _ _
  have hslack₂ : region₂.chunkSlack region.lastChunk size =
      some (region.slackBits region.lastChunk size) := by
    unfold MemoryRegion.chunkSlack
    rw [hlast₂]
    exact if_pos hparent
  let region₃ : MemoryRegion n :=
    region₂.setChunk region.lastChunk
      { region₂.allChunks region.lastChunk with
        size := (region.slackBits region.lastChunk size).signExtend 64
        startAddress := alignAddress region.alignment
          (region.allChunks region.lastChunk).startAddress + size }
  have hlists₃ : HasLists region₃ (front ++ [region.lastChunk]) rest :=
    (hlists₁.setChunk _ _).setChunk _ _
  obtain ⟨links₄, chunks₄, hdelete₄, hlists₄⟩ :=
    hlists₃.deleteFromChunks
      (show (front ++ [region.lastChunk])[front.length]? =
        some region.lastChunk by simp)
  rw [List.eraseIdx_append_of_length_le (le_refl _), Nat.sub_self,
    List.eraseIdx_cons_zero, List.append_nil] at hlists₄
  obtain ⟨links₅, chunks₅, happend₅, hlists₅⟩ :=
    hlists₄.appendToChunks
      (fun hmem => hfreshRecords (by simp [hmem])) hfreshRest
  obtain ⟨links₆, chunks₆, happend₆, hlists₆⟩ :=
    hlists₅.appendToChunks
      (by simp [hlastFront, hlastFresh]) hlastRest
  rw [List.append_assoc, List.singleton_append] at hlists₆
  have hfresh₃ : region₃.allChunks fresh = region₂.allChunks fresh :=
    Function.update_of_ne hlastFresh.symm _ _
  have hlast₃ : region₃.allChunks region.lastChunk = _ :=
    Function.update_self _ _ _
  refine ⟨{ region₃ with links := links₆, chunks := chunks₆ }, ?_,
    ⟨rfl, rfl, rfl, rfl, ?_, ?_, ?_⟩, hlists₆⟩
  · rw [MemoryRegion.placeNewChunk, hdelete₁]
    change (region₂.chunkSlack region.lastChunk size).bind _ = _
    rw [hslack₂]
    change (region₃.deleteFromChunks region.lastChunk).bind _ = _
    rw [hdelete₄]
    change (MemoryRegion.appendToChunks _ fresh).bind _ = _
    rw [happend₅]
    exact happend₆
  · exact hfresh₃.trans (Function.update_self _ _ _)
  · change region₃.allChunks region.lastChunk = _
    rw [hlast₃, hlast₂]
  · intro chunk hfresh hlast
    change region₃.allChunks chunk = _
    rw [show region₃.allChunks chunk = region₂.allChunks chunk from
      Function.update_of_ne hlast _ _]
    exact Function.update_of_ne hfresh _ _

/-- The second chunk goes from the one list to the other, wherever the first one
stands. -/
theorem mergeChunks
    {a b : Fin n} (hlists : HasLists region records pool) (hmem : b ∈ records)
    (ha : (region.allChunks a).isAllocated = false)
    (hb : (region.allChunks b).isAllocated = false)
    (hle : ¬(region.allChunks b).startAddress <
      (region.allChunks a).startAddress)
    (hparents : (region.allChunks a).parentRegion = some region.address ∧
      (region.allChunks b).parentRegion = some region.address) :
    ∃ region',
      region.coalesceChunks (some a) (some b) = some (region', some a) ∧
        Joined region region' a b ∧
        HasLists region' (records.erase b) (pool ++ [b]) := by
  have hbNot : b ∉ records.erase b := hlists.chunks_list.nodup.not_mem_erase
  have hbPool : b ∉ pool := hlists.disjoint hmem
  let merged : ChunkInfo :=
    { region.allChunks a with
      size := (region.allChunks b).startAddress + (region.allChunks b).size -
        (region.allChunks a).startAddress }
  let region₁ := region.setChunk a merged
  obtain ⟨links₂, chunks₂, hdelete, hlists₂⟩ :=
    (hlists.setChunk a merged).deleteFromChunks
      (List.getElem?_eq_some_iff.mpr
        ⟨List.idxOf_lt_length_of_mem hmem, List.getElem_idxOf _⟩)
  rw [List.eraseIdx_idxOf_eq_erase] at hlists₂
  obtain ⟨links₃, free₃, happend, hlists₃⟩ :=
    hlists₂.appendToFreeChunks hbNot hbPool
  refine ⟨{ region₁ with
      links := links₃
      chunks := chunks₂
      freeChunks := free₃
      lastChunk := if region.lastChunk = b then a else region.lastChunk },
    ?_, ⟨rfl, rfl, rfl, rfl, ?_, ?_, ?_⟩,
    ⟨hlists₃.chunks_list, hlists₃.pool_list, hlists₃.disjoint⟩⟩
  · rw [MemoryRegion.coalesceChunks]
    dsimp only
    rw [if_neg (by simp [ha, hb]), if_neg hle, if_pos hparents]
    change (region₁.deleteFromChunks b).bind _ = _
    rw [hdelete]
    change (MemoryRegion.appendToFreeChunks _ b).bind _ = _
    rw [happend]
    change some (_, some a) = some (_, some a)
    by_cases hlast : region.lastChunk = b
    · simp [hlast, region₁, MemoryRegion.setChunk]
    · simp [hlast, region₁, MemoryRegion.setChunk]
  · exact region.setChunk_self a merged
  · intro chunk hne
    exact region.setChunk_of_ne hne merged
  · have hnext := hlists₃.pool_list.next_eq pool.length b (by simp)
    rw [List.getElem?_eq_none (by simp)] at hnext
    exact hnext

theorem coalesceChunks
    {before after : List (Fin n)} {a b : Fin n}
    (hlists : HasLists region (before ++ a :: b :: after) pool)
    (ha : (region.allChunks a).isAllocated = false)
    (hb : (region.allChunks b).isAllocated = false)
    (hle : ¬(region.allChunks b).startAddress <
      (region.allChunks a).startAddress)
    (hparents : (region.allChunks a).parentRegion = some region.address ∧
      (region.allChunks b).parentRegion = some region.address) :
    ∃ region',
      region.coalesceChunks (some a) (some b) = some (region', some a) ∧
        Joined region region' a b ∧
        HasLists region' (before ++ a :: after) (pool ++ [b]) := by
  have hnodup := hlists.chunks_list.nodup
  have hbefore : b ∉ before := fun hmem =>
    List.disjoint_of_nodup_append hnodup hmem (by simp)
  have hne : a ≠ b := by
    rintro rfl
    simp [List.nodup_append] at hnodup
  have herase : (before ++ a :: b :: after).erase b = before ++ a :: after := by
    rw [List.erase_append_right _ hbefore, List.erase_cons_tail (by simpa using hne),
      List.erase_cons_head]
  rw [← herase]
  exact hlists.mergeChunks (by simp) ha hb hle hparents

end HasLists

namespace Chained

variable {region : MemoryRegion n} {records pool : List (Fin n)}
  {size : BitVec 64}

theorem last_mem (hchained : Chained region records pool) :
    region.lastChunk ∈ records :=
  List.mem_of_getLast? hchained.last_eq

theorem ne_nil (hchained : Chained region records pool) : records ≠ [] :=
  List.ne_nil_of_mem (List.mem_of_getLast? hchained.last_eq)

theorem split_last (hchained : Chained region records pool) :
    ∃ front, records = front ++ [region.lastChunk] := by
  obtain ⟨front, hfront⟩ := List.getLast?_eq_some_iff.mp hchained.last_eq
  exact ⟨front, hfront⟩

theorem chunkSlack_eq
    (hchained : Chained region records pool) {chunk : Fin n}
    (hchunk : chunk ∈ records) :
    region.chunkSlack chunk size = some (region.slackBits chunk size) :=
  if_pos (hchained.parent chunk hchunk)

theorem split_allocated
    (hchained : Chained region records pool)
    {chunk : Fin n} (hmem : chunk ∈ records)
    (halloc : (region.allChunks chunk).isAllocated = true) :
    ∃ before next rest, records = before ++ chunk :: next :: rest := by
  obtain ⟨before, after, hrecords⟩ := List.append_of_mem hmem
  cases after with
  | nil =>
      have hlast := hchained.last_eq
      rw [hrecords, List.getLast?_append_cons, List.getLast?_singleton,
        Option.some.injEq] at hlast
      rw [hlast, hchained.last_free] at halloc
      exact absurd halloc (by decide)
  | cons next rest => exact ⟨before, next, rest, hrecords⟩

theorem length_le (hchained : Chained region records pool) :
    records.length ≤ n := by
  have hlength := hchained.lists.chunks_list.nodup.length_le_card
  rwa [Fintype.card_fin] at hlength

/-- `free_buffer` finds the first chunk that starts at an address. -/
theorem search_startsAt
    {before after : List (Fin n)} {chunk : Fin n}
    (hchained : Chained region (before ++ chunk :: after) pool)
    (hfirst : ∀ other ∈ before, (region.allChunks other).startAddress ≠
      (region.allChunks chunk).startAddress) :
    region.links.search
        (region.startsAt (region.allChunks chunk).startAddress) n region.chunks =
      some (some chunk) := by
  have htest : ∀ record ∈ before ++ chunk :: after,
      region.startsAt (region.allChunks chunk).startAddress record =
        some (decide ((region.allChunks record).startAddress =
          (region.allChunks chunk).startAddress)) :=
    fun _ _ => rfl
  rw [hchained.lists.chunks_list.head_eq,
    hchained.lists.chunks_list.search_eq htest n 0
      (by simpa using hchained.length_le), List.drop_zero]
  congr 1
  rw [List.find?_append, List.find?_eq_none.mpr, Option.none_or,
    List.find?_cons_of_pos (by simp)]
  simpa using hfirst

/-! ## Allocating -/

theorem appendNewChunk_none
    (hchained : Chained region records pool)
    (hfull : ¬Accepts region size region.lastChunk ∨ pool = []) :
    region.appendNewChunk size = some (region, none) := by
  rw [MemoryRegion.appendNewChunk, if_neg (by simp [hchained.last_free]),
    hchained.chunkSlack_eq hchained.last_mem]
  by_cases haccepts : Accepts region size region.lastChunk
  · have hpool : pool = [] := hfull.resolve_left (not_not_intro haccepts)
    have hfree : region.freeChunks = none := by
      rw [hchained.lists.pool_list.head_eq, hpool]
      rfl
    simp [hfree]
  · have hneg : (region.slackBits region.lastChunk size).toInt < 0 :=
      not_le.mp haccepts
    simp [hneg]

theorem appendNewChunk_some
    {front rest : List (Fin n)} {fresh : Fin n}
    (hchained : Chained region (front ++ [region.lastChunk]) (fresh :: rest))
    (haccepts : Accepts region size region.lastChunk) :
    ∃ region',
      region.appendNewChunk size = some (region', some fresh) ∧
        Placed region region' fresh size ∧
        HasLists region' (front ++ [fresh, region.lastChunk]) rest := by
  obtain ⟨region', hplace, hplaced, hlists⟩ :=
    hchained.lists.placeNewChunk (hchained.parent _ hchained.last_mem) size
  refine ⟨region', ?_, hplaced, hlists⟩
  have hnonneg : ¬(region.slackBits region.lastChunk size).toInt < 0 :=
    not_lt.mpr haccepts
  have hfree : region.freeChunks = some fresh := by
    rw [hchained.lists.pool_list.head_eq]
    rfl
  rw [MemoryRegion.appendNewChunk, if_neg (by simp [hchained.last_free]),
    hchained.chunkSlack_eq hchained.last_mem]
  simp [hnonneg, hfree, hplace]

theorem isReusable_eq
    (hchained : Chained region records pool)
    {cursor : Fin n} (hmem : cursor ∈ records) :
    region.isReusable size cursor =
      some (decide (Taken region size cursor)) := by
  unfold MemoryRegion.isReusable
  by_cases hskip : cursor = region.lastChunk ∨
      (region.allChunks cursor).isAllocated = true
  · have hnot : ¬Taken region size cursor := by
      rintro ⟨hne, hfree, _⟩
      rcases hskip with heq | halloc
      · exact hne heq
      · simp [hfree] at halloc
    simp [hskip, hnot]
  · have hne : cursor ≠ region.lastChunk := fun heq => hskip (.inl heq)
    have hfree : (region.allChunks cursor).isAllocated = false := by
      simpa using fun halloc => hskip (.inr halloc)
    rw [if_neg hskip, hchained.chunkSlack_eq hmem, Option.map_some]
    simp [Taken, Accepts, hne, hfree]

theorem search_reusable
    (hchained : Chained region records pool) (size : BitVec 64) :
    region.links.search (region.isReusable size) n region.chunks =
      some (records.find? fun chunk => decide (Taken region size chunk)) := by
  rw [hchained.lists.chunks_list.head_eq,
    hchained.lists.chunks_list.search_eq
      (fun _ hmem => hchained.isReusable_eq hmem)
      n 0 (by simpa using hchained.length_le), List.drop_zero]

/-- The search takes the first chunk that it can take. -/
theorem reuseChunk_eq
    (hchained : Chained region records pool) (size : BitVec 64) :
    region.reuseChunk size =
      match records.find? fun chunk => decide (Taken region size chunk) with
      | none => some (region, none)
      | some chunk =>
          some (region.setChunk chunk
            { region.allChunks chunk with isAllocated := true }, some chunk) := by
  have hfind := hchained.search_reusable size
  cases hresult : records.find? fun chunk =>
      decide (Taken region size chunk) with
  | none =>
      rw [hresult] at hfind
      simp [MemoryRegion.reuseChunk, hfind]
  | some chunk =>
      rw [hresult] at hfind
      simp [MemoryRegion.reuseChunk, hfind]

theorem reuseChunk_none
    (hchained : Chained region records pool)
    (hnone : ∀ chunk ∈ records, ¬Taken region size chunk) :
    region.reuseChunk size = some (region, none) := by
  rw [hchained.reuseChunk_eq, List.find?_eq_none.mpr (by simpa using hnone)]

theorem reuseChunk_some
    (hchained : Chained region records pool)
    (hsome : ∃ chunk ∈ records, Taken region size chunk) :
    ∃ chunk ∈ records,
      Taken region size chunk ∧
        region.reuseChunk size =
          some (region.setChunk chunk
            { region.allChunks chunk with isAllocated := true }, some chunk) := by
  have heq := hchained.reuseChunk_eq size
  cases hresult : records.find? fun chunk =>
      decide (Taken region size chunk) with
  | none =>
      obtain ⟨chunk, hmem, htaken⟩ := hsome
      have hnot := List.find?_eq_none.mp hresult chunk hmem
      exact (hnot (by simpa using htaken)).elim
  | some chunk =>
      rw [hresult] at heq
      exact ⟨chunk, List.mem_of_find?_eq_some hresult,
        by simpa using List.find?_some hresult, heq⟩

theorem same_of_placed
    {region' : MemoryRegion n} {front rest : List (Fin n)} {fresh : Fin n}
    (hchained : Chained region (front ++ [region.lastChunk]) (fresh :: rest))
    (hplaced : Placed region region' fresh size) :
    ∀ chunk ∈ front, region'.allChunks chunk = region.allChunks chunk := by
  obtain ⟨hfresh, _, _, _, hlast⟩ := hchained.lists.fresh_separate
  intro chunk hmem
  apply hplaced.same
  · rintro rfl
    exact hfresh (by simp [hmem])
  · rintro rfl
    exact hlast hmem

/-- A new chunk in front of the sentinel. -/
theorem place
    {region' : MemoryRegion n} {front rest : List (Fin n)} {fresh : Fin n}
    (hchained : Chained region (front ++ [region.lastChunk]) (fresh :: rest))
    (hplaced : Placed region region' fresh size)
    (hlists : HasLists region' (front ++ [fresh, region.lastChunk]) rest) :
    Chained region' (front ++ [fresh, region.lastChunk]) rest := by
  refine ⟨hlists, by rw [hplaced.last_eq]; simp, ?_, ?_⟩
  · rw [hplaced.last_eq, hplaced.last_info]
    exact hchained.last_free
  · intro chunk hmem
    rw [hplaced.address_eq]
    simp only [List.mem_append, List.mem_cons, List.not_mem_nil, or_false] at hmem
    rcases hmem with hfront | rfl | rfl
    · rw [hchained.same_of_placed hplaced chunk hfront]
      exact hchained.parent chunk (by simp [hfront])
    · rw [hplaced.fresh_info]
    · rw [hplaced.last_info]
      exact hchained.parent _ (by simp)

/-- The three outcomes of `alloc_buffer_from_region`, as the fit test decides
them. -/
inductive Allocation
    (region : MemoryRegion n) (records pool : List (Fin n)) (size : BitVec 64) :
    MemoryRegion n → Option (Fin n) → Prop
  | failed
      (hreuse : ∀ chunk ∈ records, ¬Taken region size chunk)
      (hfull : ¬Accepts region size region.lastChunk ∨ pool = []) :
      Allocation region records pool size region none
  | reused (chunk : Fin n) (hmem : chunk ∈ records)
      (htaken : Taken region size chunk) :
      Allocation region records pool size
        (region.setChunk chunk
          { region.allChunks chunk with isAllocated := true }) (some chunk)
  | appended (region' : MemoryRegion n) (fresh : Fin n)
      (front rest : List (Fin n))
      (hrecords : records = front ++ [region.lastChunk])
      (hpool : pool = fresh :: rest)
      (haccepts : Accepts region size region.lastChunk)
      (hskipped : region.strategy = .tight →
        ∀ chunk ∈ records, ¬Taken region size chunk)
      (hplaced : Placed region region' fresh size)
      (hlists : HasLists region' (front ++ [fresh, region.lastChunk]) rest) :
      Allocation region records pool size region' (some fresh)

theorem append_outcome
    (hchained : Chained region records pool)
    (hskipped : region.strategy = .tight →
      ∀ chunk ∈ records, ¬Taken region size chunk)
    (hroom : ¬(¬Accepts region size region.lastChunk ∨ pool = [])) :
    ∃ region' fresh,
      region.appendNewChunk size = some (region', some fresh) ∧
        Allocation region records pool size region' (some fresh) := by
  rw [not_or, not_not] at hroom
  obtain ⟨fresh, rest, rfl⟩ := List.exists_cons_of_ne_nil hroom.2
  obtain ⟨front, hfront⟩ := hchained.split_last
  obtain ⟨region', happend, hplaced, hlists⟩ :=
    (hfront ▸ hchained).appendNewChunk_some hroom.1
  exact ⟨region', fresh, happend,
    .appended region' fresh front rest hfront rfl hroom.1 hskipped hplaced hlists⟩

theorem allocBufferFromRegion
    (hchained : Chained region records pool) (size : BitVec 64) :
    ∃ region' result,
      region.allocBufferFromRegion size = some (region', result) ∧
        Allocation region records pool size region' result := by
  by_cases hreuse : ∃ chunk ∈ records, Taken region size chunk
  · obtain ⟨chunk, hmem, htaken, hresult⟩ := hchained.reuseChunk_some hreuse
    cases hstrategy : region.strategy with
    | tight =>
        refine ⟨_, _, ?_, .reused chunk hmem htaken⟩
        simp [MemoryRegion.allocBufferFromRegion, hstrategy, hresult]
    | wasteful =>
        by_cases hfull : ¬Accepts region size region.lastChunk ∨ pool = []
        · have hnone := hchained.appendNewChunk_none hfull
          refine ⟨_, _, ?_, .reused chunk hmem htaken⟩
          simp [MemoryRegion.allocBufferFromRegion, hstrategy, hnone, hresult]
        · obtain ⟨region', fresh, happend, houtcome⟩ :=
            hchained.append_outcome (by simp [hstrategy]) hfull
          refine ⟨region', some fresh, ?_, houtcome⟩
          simp [MemoryRegion.allocBufferFromRegion, hstrategy, happend]
  · have hnever : ∀ chunk ∈ records, ¬Taken region size chunk := by
      intro chunk hmem htaken
      exact hreuse ⟨chunk, hmem, htaken⟩
    have hresult := hchained.reuseChunk_none hnever
    by_cases hfull : ¬Accepts region size region.lastChunk ∨ pool = []
    · have hnone := hchained.appendNewChunk_none hfull
      refine ⟨_, _, ?_, .failed hnever hfull⟩
      cases hstrategy : region.strategy <;>
        simp [MemoryRegion.allocBufferFromRegion, hstrategy, hnone, hresult]
    · obtain ⟨region', fresh, happend, houtcome⟩ :=
        hchained.append_outcome (fun _ => hnever) hfull
      refine ⟨region', some fresh, ?_, houtcome⟩
      cases hstrategy : region.strategy <;>
        simp [MemoryRegion.allocBufferFromRegion, hstrategy, happend, hresult]

end Chained

end Pocl.Bufalloc
