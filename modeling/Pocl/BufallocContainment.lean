import Pocl.BufallocFailures
import Pocl.BufallocMerging

/-!
# Chunks inside the bounds of a region

`coalesce_chunks` compares the starts of the two chunks, so the merged chunk ends where
the second one did, wherever the two stand in the list.  All chunks stay inside the
region as long as no request is let into a chunk it does not fit.

A request may be for no bytes.  Then the first chunk may start where the sentinel does;
freeing it merges it into the sentinel and may leave no chunk on the list at all.
-/

namespace Pocl.Bufalloc

variable {n : ℕ}

/-- The chunks lie between two addresses; all but the sentinel are aligned. -/
structure Contained
    (exponent lower upper : ℕ) (region : MemoryRegion n)
    (records pool : List (Fin n)) : Prop where
  alignment_eq : region.alignment = alignmentOf exponent
  strategy_eq : region.strategy = .wasteful
  linked : Linked region records pool
  count : records.length + pool.length = n
  within : ∀ chunk ∈ records, lower ≤ (region.allChunks chunk).first ∧
    (region.allChunks chunk).finish ≤ upper
  aligned : ∀ chunk ∈ records, chunk ≠ region.lastChunk →
    2 ^ exponent ∣ (region.allChunks chunk).first

namespace Contained

variable {exponent lower upper : ℕ} {region region' : MemoryRegion n}
  {records pool records' pool' : List (Fin n)} {a b : Fin n}

theorem setAllocated
    (hcontained : Contained exponent lower upper region records pool)
    {chunk : Fin n} (hne : chunk ≠ region.lastChunk) (flag : Bool) :
    Contained exponent lower upper
      (region.setChunk chunk { region.allChunks chunk with isAllocated := flag })
      records pool := by
  have hinfo : ∀ other, ∃ flag', (region.setChunk chunk
      { region.allChunks chunk with isAllocated := flag }).allChunks other =
        { region.allChunks other with isAllocated := flag' } := by
    intro other
    by_cases heq : other = chunk
    · rw [heq, region.setChunk_self]
      exact ⟨flag, rfl⟩
    · rw [region.setChunk_of_ne heq]
      exact ⟨_, rfl⟩
  refine ⟨hcontained.alignment_eq, hcontained.strategy_eq,
    hcontained.linked.setAllocated hne flag, hcontained.count, ?_, ?_⟩
  · intro other hmem
    obtain ⟨flag', hother⟩ := hinfo other
    rw [hother]
    exact hcontained.within other hmem
  · intro other hmem hneLast
    obtain ⟨flag', hother⟩ := hinfo other
    rw [hother]
    exact hcontained.aligned other hmem hneLast

theorem mergesPair
    (hupper : upper < 2 ^ 64)
    (hcontained : Contained exponent lower upper region records pool)
    (hpair : MergesPair region records pool region' a b) :
    Contained exponent lower upper region' (records.erase b) (pool ++ [b]) := by
  have hjoined := hpair.joined
  have hold : ∀ chunk ∈ records.erase b, chunk ∈ records :=
    fun chunk hmem => List.mem_of_mem_erase hmem
  have hfirst : (region'.allChunks a).first = (region.allChunks a).first := by
    rw [hjoined.first_info]
    rfl
  -- The merged chunk ends where the second one did.
  have hfinish : (region'.allChunks a).finish = (region.allChunks b).finish := by
    have hend := (hcontained.within b hpair.mem_second).2
    have hstart := hpair.start_le
    rw [hjoined.first_info]
    unfold ChunkInfo.finish ChunkInfo.first at *
    simp only [BitVec.toNat_sub, BitVec.toNat_add]
    omega
  refine ⟨by rw [hjoined.alignment_eq, hcontained.alignment_eq],
    by rw [hjoined.strategy_eq, hcontained.strategy_eq],
    hcontained.linked.mergesPair hpair, ?_, ?_, ?_⟩
  · have hcount := hcontained.count
    have hpositive := List.length_pos_of_mem hpair.mem_second
    rw [List.length_erase_of_mem hpair.mem_second, List.length_append,
      List.length_singleton]
    omega
  · intro chunk hmem
    by_cases heq : chunk = a
    · rw [heq, hfirst, hfinish]
      exact ⟨(hcontained.within a hpair.mem_first).1,
        (hcontained.within b hpair.mem_second).2⟩
    · rw [hjoined.same chunk heq]
      exact hcontained.within chunk (hold chunk hmem)
  · intro chunk hmem hne
    have hsame : (region'.allChunks chunk).first = (region.allChunks chunk).first := by
      by_cases heq : chunk = a
      · rw [heq, hfirst]
      · rw [hjoined.same chunk heq]
    rw [hsame]
    exact hcontained.aligned chunk (hold chunk hmem)
      (hpair.ne_last hcontained.linked hmem hne)

theorem merges
    (hupper : upper < 2 ^ 64)
    (hmerges : Merges region records pool region' records' pool')
    (hcontained : Contained exponent lower upper region records pool) :
    Contained exponent lower upper region' records' pool' := by
  induction hmerges with
  | refl => exact hcontained
  | step hne hpair hrest ih => exact ih (hcontained.mergesPair hupper hpair)
  | empty hne hpair hself =>
      have hmerged := hcontained.mergesPair hupper hpair
      rw [List.erase_cons_head] at hmerged
      have hempty := hmerged.mergesPair hupper hself
      rwa [List.erase_cons_head] at hempty

end Contained

instance (exponent : ℕ) (info : ChunkInfo) (size : BitVec 64) :
    Decidable (LooksFitting exponent info size) :=
  inferInstanceAs (Decidable (_ < _))

/-- An unallocated chunk before the sentinel that a request seems to fit. -/
def SeemsReusable
    (exponent : ℕ) (region : MemoryRegion n) (size : BitVec 64) (chunk : Fin n) :
    Prop :=
  chunk ≠ region.lastChunk ∧ (region.allChunks chunk).isAllocated = false ∧
    LooksFitting exponent (region.allChunks chunk) size

instance (exponent : ℕ) (region : MemoryRegion n) (size : BitVec 64) :
    DecidablePred (SeemsReusable exponent region size) := fun _ =>
  inferInstanceAs (Decidable (_ ∧ _ ∧ _))

/-- If a request seems to fit the sentinel, or else another chunk, it does fit the
first chunk that it seems to fit. -/
def WellJudged
    (exponent : ℕ) (region : MemoryRegion n) (records : List (Fin n))
    (size : BitVec 64) : Prop :=
  if LooksFitting exponent (region.allChunks region.lastChunk) size ∧
      region.freeChunks ≠ none then
    Fits exponent (region.allChunks region.lastChunk) size
  else
    ∀ chunk, (records.find? fun chunk =>
        decide (SeemsReusable exponent region size chunk)) = some chunk →
      Fits exponent (region.allChunks chunk) size

namespace Contained

variable {exponent lower upper : ℕ} {region region' : MemoryRegion n}
  {records pool : List (Fin n)} {size : BitVec 64}

/-- If the list of the chunks is empty, the sentinel cannot be taken from it. -/
theorem placeNewChunk_of_nil
    {fresh : Fin n} {rest : List (Fin n)}
    (hlists : HasLists region [] (fresh :: rest)) (hlength : 1 < rest.length)
    (hlast : rest.getLast? = some region.lastChunk) :
    region.placeNewChunk fresh size = none := by
  obtain ⟨links₁, free₁, hdelete₁, hlists₁⟩ :=
    hlists.deleteFromFreeChunks (show (fresh :: rest)[0]? = some fresh from rfl)
  rw [List.eraseIdx_cons_zero] at hlists₁
  have hchunks : region.chunks = none := hlists.chunks_list.head_eq
  -- The sentinel is the last one of the other list, and not the only one.
  obtain ⟨index, hindex⟩ : ∃ index, rest.length = index + 2 := ⟨rest.length - 2, by omega⟩
  have hlastIndex : rest[index + 1]? = some region.lastChunk := by
    rw [← hlast, List.getLast?_eq_getElem?, hindex]
    rfl
  have hlt : index < rest.length := by omega
  have hbefore : rest[index]? = some rest[index] := List.getElem?_eq_getElem hlt
  have hprev : links₁.prev region.lastChunk = some rest[index] := by
    rw [hlists₁.pool_list.prev_eq index _ hlastIndex, hbefore]
  have hne : rest[index] ≠ region.lastChunk := by
    intro heq
    have hsame := hlists₁.pool_list.index_unique hbefore (heq ▸ hlastIndex)
    omega
  have hnext : links₁.next region.lastChunk = none := by
    rw [hlists₁.pool_list.next_eq (index + 1) _ hlastIndex]
    exact List.getElem?_eq_none (by omega)
  have hdelete : links₁.delete none region.lastChunk = none := by
    simp [Links.delete, hprev, hne, hnext]
  rw [MemoryRegion.placeNewChunk, hdelete₁]
  simp [MemoryRegion.chunkSlack, MemoryRegion.setChunk,
    MemoryRegion.deleteFromChunks, hchunks, hdelete]

/-- Without a chunk on the list, no allocation returns a chunk. -/
theorem alloc_of_nil
    (hcount : 2 < n) (hcontained : Contained exponent lower upper region [] pool) :
    region.allocBufferFromRegion size = none ∨
      region.allocBufferFromRegion size = some (region, none) := by
  have hlength : pool.length = n := by simpa using hcontained.count
  obtain ⟨fresh, rest, rfl⟩ : ∃ fresh rest, pool = fresh :: rest := by
    refine List.exists_cons_of_ne_nil ?_
    rintro rfl
    rw [List.length_nil] at hlength
    omega
  rw [List.length_cons] at hlength
  have hlast : rest.getLast? = some region.lastChunk := by
    have hold := (hcontained.linked.last_eq.resolve_left (by simp)).2
    obtain ⟨second, others, rfl⟩ : ∃ second others, rest = second :: others := by
      refine List.exists_cons_of_ne_nil ?_
      rintro rfl
      rw [List.length_nil] at hlength
      omega
    rwa [List.getLast?_cons_cons] at hold
  have hplace : region.placeNewChunk fresh size = none :=
    placeNewChunk_of_nil hcontained.linked.lists (by omega) hlast
  have hchunks : region.chunks = none := hcontained.linked.lists.chunks_list.head_eq
  have hfree : region.freeChunks = some fresh := hcontained.linked.lists.pool_list.head_eq
  have hreuse : region.reuseChunk size = some (region, none) := by
    simp [MemoryRegion.reuseChunk, hchunks, Links.search]
  rw [MemoryRegion.allocBufferFromRegion, hcontained.strategy_eq]
  dsimp only
  cases hslack : region.chunkSlack region.lastChunk size with
  | none =>
      left
      simp [MemoryRegion.appendNewChunk, hcontained.linked.last_free, hslack]
  | some slack =>
      by_cases hneg : slack.toInt < 0
      · right
        simp [MemoryRegion.appendNewChunk, hcontained.linked.last_free, hslack, hneg, hreuse]
      · left
        simp [MemoryRegion.appendNewChunk, hcontained.linked.last_free, hslack, hneg, hfree,
          hplace]

/-- A chunk cut from a sentinel that the request fits. -/
theorem place
    (hexponent : exponent ≤ 14) (hupper : upper < 2 ^ 64)
    (hbounds : upper - lower < 2 ^ 31)
    {front rest : List (Fin n)} {fresh : Fin n}
    (hcontained : Contained exponent lower upper region
      (front ++ [region.lastChunk]) (fresh :: rest))
    (haccepts : Accepts region size region.lastChunk)
    (hfits : Fits exponent (region.allChunks region.lastChunk) size)
    (hplaced : Placed region region' fresh size)
    (hlists : HasLists region' (front ++ [fresh, region.lastChunk]) rest) :
    Contained exponent lower upper region' (front ++ [fresh, region.lastChunk]) rest ∧
      (region'.allChunks fresh).first =
        alignUp exponent (region.allChunks region.lastChunk).first ∧
      (region'.allChunks fresh).finish =
        alignUp exponent (region.allChunks region.lastChunk).first + size.toNat := by
  have hchained := hcontained.linked.chained (by simp)
  have hsame := hchained.same_of_placed hplaced
  obtain ⟨hlower, hfinish⟩ := hcontained.within region.lastChunk (by simp)
  have hround := le_alignUp exponent (region.allChunks region.lastChunk).first
  have hcut : (alignAddress region.alignment
      (region.allChunks region.lastChunk).startAddress).toNat =
        alignUp exponent (region.allChunks region.lastChunk).first := by
    rw [hcontained.alignment_eq, toNat_alignAddress hexponent]
    refine Nat.mod_eq_of_lt ?_
    unfold Fits ChunkInfo.first at *
    omega
  have hfreshFirst : (region'.allChunks fresh).first =
      alignUp exponent (region.allChunks region.lastChunk).first := by
    rw [hplaced.fresh_info]
    exact hcut
  have hfreshFinish : (region'.allChunks fresh).finish =
      alignUp exponent (region.allChunks region.lastChunk).first + size.toNat := by
    rw [hplaced.fresh_info]
    exact congrArg (· + size.toNat) hcut
  have hlastFirst : (region'.allChunks region.lastChunk).first =
      alignUp exponent (region.allChunks region.lastChunk).first + size.toNat := by
    rw [hplaced.last_info, ChunkInfo.first, BitVec.toNat_add, hcut]
    refine Nat.mod_eq_of_lt ?_
    unfold Fits at hfits
    omega
  -- The rest is less than `2 ^ 31` bytes, so that the sentinel ends where it did.
  have hlastFinish : (region'.allChunks region.lastChunk).finish =
      (region.allChunks region.lastChunk).finish := by
    have hrest := toNat_rest hexponent hcontained.alignment_eq haccepts
    have hsize : (region'.allChunks region.lastChunk).size =
        (region.slackBits region.lastChunk size).signExtend 64 := by
      rw [hplaced.last_info]
    have hfirst : (region'.allChunks region.lastChunk).startAddress.toNat = _ :=
      hlastFirst
    rw [← hsize] at hrest
    unfold slackOf at hrest
    unfold Fits at hfits
    unfold ChunkInfo.finish ChunkInfo.first at *
    omega
  have hcases : ∀ chunk ∈ front ++ [fresh, region.lastChunk],
      chunk ∈ front ∨ chunk = fresh ∨ chunk = region.lastChunk := by
    intro chunk hmem
    simpa using hmem
  refine ⟨⟨by rw [hplaced.alignment_eq, hcontained.alignment_eq],
    by rw [hplaced.strategy_eq, hcontained.strategy_eq],
    (hchained.place hplaced hlists).linked, ?_, ?_, ?_⟩, hfreshFirst, hfreshFinish⟩
  · have hcount := hcontained.count
    simp only [List.length_append, List.length_cons, List.length_nil] at hcount ⊢
    omega
  · intro chunk hmem
    unfold Fits at hfits
    rcases hcases chunk hmem with hfront | rfl | rfl
    · rw [hsame chunk hfront]
      exact hcontained.within chunk (by simp [hfront])
    · rw [hfreshFirst, hfreshFinish]
      omega
    · rw [hlastFirst, hlastFinish]
      omega
  · intro chunk hmem hne
    rw [hplaced.last_eq] at hne
    rcases hcases chunk hmem with hfront | rfl | rfl
    · rw [hsame chunk hfront]
      exact hcontained.aligned chunk (by simp [hfront]) hne
    · rw [hfreshFirst]
      exact dvd_alignUp _ _
    · exact (hne rfl).elim

/-- What an allocation returns lies between the bounds. -/
theorem alloc
    (hexponent : exponent ≤ 14) (hupper : upper < 2 ^ 64)
    (hbounds : upper - lower < 2 ^ 31) (hcount : 2 < n)
    (hcontained : Contained exponent lower upper region records pool)
    (hjudged : WellJudged exponent region records size) {result : Option (Fin n)}
    (halloc : region.allocBufferFromRegion size = some (region', result)) :
    ∃ records' pool',
      Contained exponent lower upper region' records' pool' ∧
        KeepsAllocated region records region' records' ∧
        ∀ chunk, result = some chunk →
          chunk ∈ records' ∧ (region'.allChunks chunk).isAllocated = true ∧
            lower ≤ (region'.allChunks chunk).first ∧
            (region'.allChunks chunk).first + size.toNat ≤ upper := by
  by_cases hrecords : records = []
  · subst hrecords
    rcases alloc_of_nil hcount hcontained with hnone | hsame
    · rw [hnone] at halloc
      cases halloc
    · rw [hsame] at halloc
      cases halloc
      exact ⟨[], pool, hcontained, .refl _ _, nofun⟩
  · have hchained := hcontained.linked.chained hrecords
    have hlooks : ∀ chunk, Accepts region size chunk ↔
        LooksFitting exponent (region.allChunks chunk) size :=
      fun chunk => accepts_iff_emod hexponent hcontained.alignment_eq
    rw [MemoryRegion.allocBufferFromRegion, hcontained.strategy_eq] at halloc
    by_cases hroom : Accepts region size region.lastChunk ∧ region.freeChunks ≠ none
    · have hfits : Fits exponent (region.allChunks region.lastChunk) size := by
        rwa [WellJudged, if_pos ⟨(hlooks _).mp hroom.1, hroom.2⟩] at hjudged
      obtain ⟨front, rfl⟩ := hchained.split_last
      obtain ⟨fresh, rest, rfl⟩ : ∃ fresh rest, pool = fresh :: rest := by
        refine List.exists_cons_of_ne_nil fun hnil => ?_
        exact hroom.2 (hchained.freeChunks_eq_none_iff.mpr hnil)
      obtain ⟨region'', happend, hplaced, hlists⟩ := hchained.appendNewChunk_some hroom.1
      simp only [happend, Option.pure_def, Option.bind_eq_bind, Option.bind_some,
        Option.some.injEq, Prod.mk.injEq] at halloc
      obtain ⟨rfl, rfl⟩ := halloc
      obtain ⟨hcontained', hfirst, hfinish⟩ :=
        hcontained.place hexponent hupper hbounds hroom.1 hfits hplaced hlists
      refine ⟨_, _, hcontained', hplaced.keepsAllocated hchained, ?_⟩
      intro chunk hchunk
      cases hchunk
      have hwithin := hcontained'.within fresh (by simp)
      refine ⟨by simp, by rw [hplaced.fresh_info], hwithin.1, ?_⟩
      rw [hfirst, ← hfinish]
      exact hwithin.2
    · have hfull : ¬Accepts region size region.lastChunk ∨ pool = [] := by
        rw [not_and_or, not_not, hchained.freeChunks_eq_none_iff] at hroom
        exact hroom
      have hfirst : ∀ chunk, (records.find? fun chunk =>
          decide (Taken region size chunk)) = some chunk →
            Fits exponent (region.allChunks chunk) size := by
        rw [WellJudged, if_neg (by rwa [← hlooks])] at hjudged
        intro chunk hfind
        refine hjudged chunk (Eq.trans ?_ hfind)
        congr 1
        funext other
        exact decide_eq_decide.mpr
          (and_congr_right fun _ => and_congr_right fun _ => (hlooks other).symm)
      have hreuse := hchained.reuseChunk_eq size
      simp only [hchained.appendNewChunk_none hfull, Option.pure_def,
        Option.bind_eq_bind, Option.bind_some, hreuse] at halloc
      cases hfind : records.find? fun chunk => decide (Taken region size chunk) with
      | none =>
          rw [hfind] at halloc
          cases halloc
          exact ⟨records, pool, hcontained, .refl _ _, nofun⟩
      | some chunk =>
          rw [hfind] at halloc
          cases halloc
          have hmem := List.mem_of_find?_eq_some hfind
          have htaken : Taken region size chunk := by simpa using List.find?_some hfind
          refine ⟨records, pool, hcontained.setAllocated htaken.1 true,
            .setAllocated records htaken.2.1, ?_⟩
          intro other hsome
          cases hsome
          have hwithin := hcontained.within chunk hmem
          have hfits := hfirst chunk hfind
          have hround := le_alignUp exponent (region.allChunks chunk).first
          rw [region.setChunk_self]
          refine ⟨hmem, rfl, hwithin.1, ?_⟩
          unfold Fits at hfits
          change (region.allChunks chunk).first + size.toNat ≤ upper
          omega

end Contained

/-! ## Clients -/

theorem SetUp.contained
    [NeZero n] {region : MemoryRegion n} {start : MemoryAddress} {size : BitVec 64}
    {exponent : ℕ} (hregion : SetUp region start size exponent .wasteful) :
    Contained exponent start.toNat (start.toNat + size.toNat) region [0]
      ((List.finRange n).drop 1) := by
  have hsentinel : ∀ chunk ∈ [0], (region.allChunks chunk) =
      { startAddress := start
        size := size
        isAllocated := false
        parentRegion := some region.address } := by
    intro chunk hmem
    rw [List.mem_singleton.mp hmem, hregion.sentinel_eq]
  refine ⟨hregion.alignment_eq, hregion.strategy_eq, hregion.chained.linked, ?_, ?_, ?_⟩
  · have hpositive := Nat.pos_of_ne_zero (NeZero.ne n)
    rw [List.length_singleton, List.length_drop, List.length_finRange]
    omega
  · intro chunk hmem
    rw [hsentinel chunk hmem]
    exact ⟨le_refl _, le_refl _⟩
  · intro chunk hmem hne
    exact (hne (hregion.last_eq ▸ List.mem_singleton.mp hmem)).elim

/-- What the client of a region holds lies between the bounds. -/
def Holding (exponent lower upper : ℕ) (state : AllocatorState n) : Prop :=
  ∃ records pool, Contained exponent lower upper state.region records pool ∧
    ∀ entry ∈ state.live, entry.1 ∈ records ∧
      (state.region.allChunks entry.1).isAllocated = true ∧
      (state.region.allChunks entry.1).first + entry.2.toNat ≤ upper

namespace Holding

variable {exponent lower upper : ℕ} {state state' : AllocatorState n}

theorem alloc
    (hexponent : exponent ≤ 14) (hupper : upper < 2 ^ 64)
    (hbounds : upper - lower < 2 ^ 31) (hcount : 2 < n)
    (hholding : Holding exponent lower upper state) {size : BitVec 64}
    (hjudged : ∀ records, IsDList state.region.links state.region.chunks records →
      WellJudged exponent state.region records size)
    (hstep : state.step (.alloc size) = some state') :
    Holding exponent lower upper state' := by
  obtain ⟨records, pool, hcontained, hlive⟩ := hholding
  obtain ⟨⟨region', result⟩, halloc, hstate⟩ := Option.map_eq_some_iff.mp hstep
  obtain ⟨records', pool', hcontained', hkeeps, hresult⟩ :=
    hcontained.alloc hexponent hupper hbounds hcount
      (hjudged records hcontained.linked.lists.chunks_list) halloc
  have hold : ∀ entry ∈ state.live, entry.1 ∈ records' ∧
      (region'.allChunks entry.1).isAllocated = true ∧
      (region'.allChunks entry.1).first + entry.2.toNat ≤ upper := by
    intro entry hentry
    obtain ⟨hmem, hallocated, hle⟩ := hlive entry hentry
    obtain ⟨hmem', hsame⟩ := hkeeps entry.1 hmem hallocated
    rw [hsame]
    exact ⟨hmem', hallocated, hle⟩
  subst hstate
  refine ⟨records', pool', by rwa [AllocatorState.acquire_region], ?_⟩
  rw [AllocatorState.acquire_region]
  cases result with
  | none => exact hold
  | some chunk =>
      obtain ⟨hmem, hallocated, _, hle⟩ := hresult chunk rfl
      exact List.forall_mem_cons.mpr ⟨⟨hmem, hallocated, hle⟩, hold⟩

theorem freeChunk
    (hupper : upper < 2 ^ 64) (hholding : Holding exponent lower upper state)
    {chunk : Fin n} (hchunk : chunk ∈ state.liveChunks) {order : ArgumentOrder}
    (hstep : state.step (.freeChunk order chunk) = some state') :
    Holding exponent lower upper state' := by
  obtain ⟨records, pool, hcontained, hlive⟩ := hholding
  obtain ⟨entry, hentry, rfl⟩ := List.mem_map.mp hchunk
  obtain ⟨hmem, hallocated, _⟩ := hlive entry hentry
  have hne : entry.1 ≠ state.region.lastChunk := by
    intro heq
    rw [heq, hcontained.linked.last_free] at hallocated
    cases hallocated
  obtain ⟨region', records', pool', hfree, hmerges⟩ :=
    hcontained.linked.freeChunk hmem hne order
  rw [AllocatorState.step, hfree] at hstep
  cases hstep
  refine ⟨records', pool', (hcontained.setAllocated hne false).merges hupper hmerges,
    fun other hother => ?_⟩
  obtain ⟨hold, hother'⟩ := List.mem_filter.mp hother
  obtain ⟨hotherMem, hotherAllocated, hle⟩ := hlive other hold
  have hunmarked := state.region.setChunk_of_ne (of_decide_eq_true hother')
    { state.region.allChunks entry.1 with isAllocated := false }
  obtain ⟨hmem', hsame⟩ :=
    hmerges.keepsAllocated other.1 hotherMem (by rw [hunmarked, hotherAllocated])
  change other.1 ∈ records' ∧ (region'.allChunks other.1).isAllocated = true ∧
    (region'.allChunks other.1).first + other.2.toNat ≤ upper
  rw [hsame, hunmarked]
  exact ⟨hmem', hotherAllocated, hle⟩

theorem bounds
    (hholding : Holding exponent lower upper state) {entry : Fin n × BitVec 64}
    (hentry : entry ∈ state.live) :
    alignUp exponent lower ≤ (state.region.allChunks entry.1).first ∧
      (state.region.allChunks entry.1).first + entry.2.toNat ≤ upper := by
  obtain ⟨records, pool, hcontained, hlive⟩ := hholding
  obtain ⟨hmem, hallocated, hle⟩ := hlive entry hentry
  have hne : entry.1 ≠ state.region.lastChunk := by
    intro heq
    rw [heq, hcontained.linked.last_free] at hallocated
    cases hallocated
  refine ⟨?_, hle⟩
  have hmono := alignUp_mono exponent (hcontained.within entry.1 hmem).1
  rwa [alignUp_of_dvd (hcontained.aligned entry.1 hmem hne)] at hmono

end Holding

end Pocl.Bufalloc
