import Pocl.BufallocLists

/-!
# What one allocator operation does

One specification for each function of the allocator, stated on the records of
the two lists.  Later modules use these and never unfold the functions again.
-/

namespace Pocl.Bufalloc

variable {n : ℕ}

/-- The allocator invariant: `records` are the chunks of the region, `pool` the
unused records. -/
structure RegionInvariant
    (bounds : RegionBounds) (region : MemoryRegion n)
    (records pool : List (Fin n)) : Prop where
  alignment_eq : region.alignment = alignmentOf bounds.exponent
  lists : HasLists region records pool
  layout :
    Layout bounds region.address region.allChunks region.lastChunk records
  cover : ∀ chunk, chunk ∈ records ∨ chunk ∈ pool

/-- The request does not overshoot the sentinel by more than an `int` can
count. -/
def SentinelSlackFits
    (exponent : ℕ) (region : MemoryRegion n) (size : BitVec 64) : Prop :=
  alignUp exponent (region.allChunks region.lastChunk).first + size.toNat ≤
    (region.allChunks region.lastChunk).finish + 2 ^ 31

/-- The request fits in the sentinel after alignment. -/
def FitsSentinel
    (bounds : RegionBounds) (region : MemoryRegion n) (size : BitVec 64) :
    Prop :=
  alignUp bounds.exponent (region.allChunks region.lastChunk).first + size.toNat ≤
    (region.allChunks region.lastChunk).finish

/-- The request fits in an unallocated chunk before the sentinel. -/
def Reusable
    (region : MemoryRegion n) (size : BitVec 64) (chunk : Fin n) : Prop :=
  chunk ≠ region.lastChunk ∧ (region.allChunks chunk).isAllocated = false ∧
    size.toNat ≤ (region.allChunks chunk).size.toNat

instance (region : MemoryRegion n) (size : BitVec 64) :
    DecidablePred (Reusable region size) := fun _ =>
  inferInstanceAs (Decidable (_ ∧ _ ∧ _))

namespace RegionInvariant

variable {bounds : RegionBounds} {region : MemoryRegion n}
  {records pool : List (Fin n)} {size : BitVec 64}

theorem chained (hinv : RegionInvariant bounds region records pool) :
    Chained region records pool :=
  ⟨hinv.lists, hinv.layout.last_eq, hinv.layout.last_free, hinv.layout.parent⟩

theorem toInt_slackBits
    (hinv : RegionInvariant bounds region records pool)
    {chunk : Fin n} (hchunk : chunk ∈ records)
    (hfits :
      alignUp bounds.exponent (region.allChunks chunk).first + size.toNat ≤
        (region.allChunks chunk).finish + 2 ^ 31) :
    (region.slackBits chunk size).toInt =
      ((region.allChunks chunk).finish : ℤ) -
        (alignUp bounds.exponent (region.allChunks chunk).first +
          size.toNat : ℕ) := by
  have hfinish := hinv.layout.finish_le hchunk
  have hstart := hinv.layout.start_le chunk hchunk
  have hbounds := bounds.size_lt
  have hround := le_alignUp bounds.exponent (region.allChunks chunk).first
  rw [MemoryRegion.slackBits, hinv.alignment_eq,
    toInt_slack_bmod bounds.exponent_le, bmod_of_fits]
  · rfl
  · unfold slackOf ChunkInfo.first ChunkInfo.finish at *
    omega
  · unfold slackOf ChunkInfo.first ChunkInfo.finish at *
    omega

theorem accepts_iff
    (hinv : RegionInvariant bounds region records pool)
    {chunk : Fin n} (hchunk : chunk ∈ records)
    (hfits :
      alignUp bounds.exponent (region.allChunks chunk).first + size.toNat ≤
        (region.allChunks chunk).finish + 2 ^ 31) :
    Accepts region size chunk ↔
      alignUp bounds.exponent (region.allChunks chunk).first + size.toNat ≤
        (region.allChunks chunk).finish := by
  rw [Accepts, hinv.toInt_slackBits hchunk hfits]
  omega

theorem accepts_last_iff
    (hinv : RegionInvariant bounds region records pool)
    (hslackFits : SentinelSlackFits bounds.exponent region size) :
    Accepts region size region.lastChunk ↔ FitsSentinel bounds region size :=
  hinv.accepts_iff hinv.layout.last_mem hslackFits

theorem taken_iff
    (hinv : RegionInvariant bounds region records pool)
    (hsize : size.toNat < 2 ^ 31)
    {chunk : Fin n} (hchunk : chunk ∈ records) :
    Taken region size chunk ↔ Reusable region size chunk := by
  unfold Taken Reusable
  apply and_congr_right
  intro hne
  apply and_congr_right
  intro _
  have halign := alignUp_of_dvd (hinv.layout.aligned chunk hchunk hne)
  rw [hinv.accepts_iff hchunk, halign, ChunkInfo.finish, ChunkInfo.first]
  · omega
  · rw [halign, ChunkInfo.finish, ChunkInfo.first]
    omega

/-! ## Appending -/

/-- The effect of a successful append: the record `fresh` becomes an allocated
chunk of the requested size and no other chunk but the sentinel changes. -/
structure Appended
    (bounds : RegionBounds) (region region' : MemoryRegion n)
    (records : List (Fin n)) (fresh : Fin n) (rest : List (Fin n))
    (size : BitVec 64) : Prop where
  invariant : ∃ front,
    records = front ++ [region.lastChunk] ∧
      RegionInvariant bounds region' (front ++ [fresh, region.lastChunk]) rest
  last_eq : region'.lastChunk = region.lastChunk
  strategy_eq : region'.strategy = region.strategy
  fresh_allocated : (region'.allChunks fresh).isAllocated = true
  fresh_size : (region'.allChunks fresh).size = size
  same : ∀ chunk, chunk ≠ fresh → chunk ≠ region.lastChunk →
    region'.allChunks chunk = region.allChunks chunk

/-- The addresses at which a request is cut off the sentinel. -/
theorem cut_toNat
    (hinv : RegionInvariant bounds region records pool)
    (hfits : FitsSentinel bounds region size) :
    (alignAddress region.alignment
        (region.allChunks region.lastChunk).startAddress).toNat =
        alignUp bounds.exponent (region.allChunks region.lastChunk).first ∧
      (alignAddress region.alignment
          (region.allChunks region.lastChunk).startAddress + size).toNat =
        alignUp bounds.exponent (region.allChunks region.lastChunk).first +
          size.toNat := by
  have hfinish := hinv.layout.finish_le hinv.layout.last_mem
  have hfinishLt := bounds.finish_lt
  have hstart := toNat_alignAddress bounds.exponent_le
    (region.allChunks region.lastChunk).startAddress
  unfold FitsSentinel at hfits
  have hfirst : (alignAddress region.alignment
      (region.allChunks region.lastChunk).startAddress).toNat =
        alignUp bounds.exponent (region.allChunks region.lastChunk).first := by
    rw [hinv.alignment_eq, hstart]
    apply Nat.mod_eq_of_lt
    unfold ChunkInfo.first at *
    omega
  refine ⟨hfirst, ?_⟩
  rw [BitVec.toNat_add, hfirst]
  apply Nat.mod_eq_of_lt
  omega

theorem sentinelSlack_toNat
    (hinv : RegionInvariant bounds region records pool)
    (hfits : FitsSentinel bounds region size) :
    ((region.slackBits region.lastChunk size).signExtend 64).toNat =
      (region.allChunks region.lastChunk).finish -
        (alignUp bounds.exponent (region.allChunks region.lastChunk).first +
          size.toNat) := by
  have hvalue := hinv.toInt_slackBits hinv.layout.last_mem
    (hfits.trans (Nat.le_add_right _ _))
  have hnonneg : 0 ≤ (region.slackBits region.lastChunk size).toInt := by
    rw [hvalue]
    unfold FitsSentinel at hfits
    omega
  have hextend := toNat_signExtend_of_nonneg hnonneg
  omega

theorem appended_of_placed
    {region' : MemoryRegion n} {front rest : List (Fin n)} {fresh : Fin n}
    (hinv : RegionInvariant bounds region (front ++ [region.lastChunk])
      (fresh :: rest))
    (hpositive : 0 < size.toNat) (hfits : FitsSentinel bounds region size)
    (hplaced : Placed region region' fresh size)
    (hlists : HasLists region' (front ++ [fresh, region.lastChunk]) rest) :
    Appended bounds region region' (front ++ [region.lastChunk]) fresh rest
      size := by
  obtain ⟨hfreshRecords, _, _, _, hlastFront⟩ := hinv.lists.fresh_separate
  obtain ⟨hfirst, hsum⟩ := hinv.cut_toNat hfits
  have hslack := hinv.sentinelSlack_toNat hfits
  refine ⟨⟨front, rfl, ?_, hlists, ?_, ?_⟩, hplaced.last_eq, hplaced.strategy_eq,
    by rw [hplaced.fresh_info], by rw [hplaced.fresh_info], hplaced.same⟩
  · rw [hplaced.alignment_eq, hinv.alignment_eq]
  · rw [hplaced.address_eq, hplaced.last_eq]
    apply hinv.layout.cut hfreshRecords
    · intro chunk hchunk
      apply hplaced.same
      · rintro rfl
        exact hfreshRecords (by simp [hchunk])
      · rintro rfl
        exact hlastFront hchunk
    · rw [hplaced.fresh_info]
    · rw [hplaced.fresh_info]
      exact hfirst
    · rw [hplaced.fresh_info]
      exact hpositive
    · rw [hplaced.last_info]
      exact hinv.layout.parent _ hinv.layout.last_mem
    · rw [hplaced.last_info]
      exact hinv.layout.last_free
    · rw [hplaced.last_info, hplaced.fresh_info]
      simp only [ChunkInfo.first, ChunkInfo.finish]
      rw [hsum, hfirst, ChunkInfo.first]
    · rw [hplaced.last_info]
      simp only [ChunkInfo.finish]
      rw [hsum, hslack, hinv.layout.last_finish]
      unfold FitsSentinel at hfits
      rw [hinv.layout.last_finish] at hfits
      omega
  · intro chunk
    rcases hinv.cover chunk with hmem | hmem
    · left
      simp only [List.mem_append, List.mem_cons] at hmem ⊢
      tauto
    · rcases List.mem_cons.mp hmem with rfl | hrest
      · left
        simp
      · right
        exact hrest

/-! ## Reusing -/

theorem setAllocated
    (hinv : RegionInvariant bounds region records pool)
    {chunk : Fin n} (hne : chunk ≠ region.lastChunk) (flag : Bool) :
    RegionInvariant bounds
      (region.setChunk chunk { region.allChunks chunk with isAllocated := flag })
      records pool := by
  refine ⟨hinv.alignment_eq, hinv.lists.setChunk _ _, ?_, hinv.cover⟩
  apply hinv.layout.congr
  · intro other _
    by_cases heq : other = chunk
    · subst heq
      simp
    · rw [region.setChunk_of_ne heq]
      exact ⟨rfl, rfl, rfl⟩
  · rw [region.setChunk_of_ne hne.symm]
    exact hinv.layout.last_free

/-! ## Allocating -/

/-- The three outcomes of `alloc_buffer_from_region`. -/
inductive AllocOutcome
    (bounds : RegionBounds) (region : MemoryRegion n)
    (records pool : List (Fin n)) (size : BitVec 64) :
    MemoryRegion n → Option (Fin n) → Prop
  | failed
      (hreuse : ∀ chunk ∈ records, ¬Reusable region size chunk)
      (hfull : ¬FitsSentinel bounds region size ∨ pool = []) :
      AllocOutcome bounds region records pool size region none
  | reused (chunk : Fin n) (hmem : chunk ∈ records)
      (hreusable : Reusable region size chunk) :
      AllocOutcome bounds region records pool size
        (region.setChunk chunk
          { region.allChunks chunk with isAllocated := true }) (some chunk)
  | appended (region' : MemoryRegion n) (fresh : Fin n) (rest : List (Fin n))
      (hpool : pool = fresh :: rest)
      (happended : Appended bounds region region' records fresh rest size) :
      AllocOutcome bounds region records pool size region' (some fresh)

/-- The slack of the sentinel fits in an `int`, or the sentinel is not asked
because an earlier chunk is reused. -/
def AllocSlackFits
    (exponent : ℕ) (region : MemoryRegion n) (size : BitVec 64) : Prop :=
  SentinelSlackFits exponent region size ∨
    region.strategy = .tight ∧
      ∃ records, IsDList region.links region.chunks records ∧
        ∃ chunk ∈ records, Reusable region size chunk

/-- Without a reusable chunk, or with the wasteful strategy, the slack of the
sentinel has to fit. -/
theorem sentinelSlackFits
    (hinv : RegionInvariant bounds region records pool)
    (hslackFits : AllocSlackFits bounds.exponent region size)
    (hasked : region.strategy = .tight →
      ∀ chunk ∈ records, ¬Reusable region size chunk) :
    SentinelSlackFits bounds.exponent region size := by
  rcases hslackFits with hfits | ⟨htight, records', hlist, chunk, hmem, hreusable⟩
  · exact hfits
  · rw [hlist.unique hinv.lists.chunks_list] at hmem
    exact (hasked htight chunk hmem hreusable).elim

theorem allocBufferFromRegion_outcome
    (hinv : RegionInvariant bounds region records pool)
    (hpositive : 0 < size.toNat) (hsize : size.toNat < 2 ^ 31)
    (hslackFits : AllocSlackFits bounds.exponent region size) :
    ∃ region' result,
      region.allocBufferFromRegion size = some (region', result) ∧
        AllocOutcome bounds region records pool size region' result := by
  obtain ⟨region', result, halloc, hallocation⟩ :=
    hinv.chained.allocBufferFromRegion size
  refine ⟨region', result, halloc, ?_⟩
  cases hallocation with
  | failed hreuse hfull =>
      have hnever : ∀ chunk ∈ records, ¬Reusable region size chunk := by
        intro chunk hmem
        rw [← hinv.taken_iff hsize hmem]
        exact hreuse chunk hmem
      rw [hinv.accepts_last_iff
        (hinv.sentinelSlackFits hslackFits fun _ => hnever)] at hfull
      exact .failed hnever hfull
  | reused chunk hmem htaken =>
      exact .reused chunk hmem ((hinv.taken_iff hsize hmem).mp htaken)
  | appended region' fresh front rest hrecords hpool haccepts hskipped hplaced hlists =>
      have hfits := hinv.sentinelSlackFits hslackFits (by
        intro htight chunk hmem
        rw [← hinv.taken_iff hsize hmem]
        exact hskipped htight chunk hmem)
      rw [hinv.accepts_last_iff hfits] at haccepts
      subst hrecords
      subst hpool
      exact .appended region' fresh rest rfl
        (hinv.appended_of_placed hpositive haccepts hplaced hlists)

/-! ## Merging -/

/-- The effect of merging the neighbours `a` and `b`. -/
structure Merged
    (bounds : RegionBounds) (region region' : MemoryRegion n)
    (records pool : List (Fin n)) (a b : Fin n) : Prop where
  invariant : RegionInvariant bounds region' records (pool ++ [b])
  strategy_eq : region'.strategy = region.strategy
  free : (region'.allChunks a).isAllocated = false
  same : ∀ chunk, chunk ≠ a → region'.allChunks chunk = region.allChunks chunk
  next_eq : region'.links.next b = none
  head_first : ∀ chunk, records.head? = some chunk →
    (region'.allChunks chunk).first = alignUp bounds.exponent bounds.start

theorem coalesceChunks_merge
    {before after : List (Fin n)} {a b : Fin n}
    (hinv : RegionInvariant bounds region (before ++ a :: b :: after) pool)
    (ha : (region.allChunks a).isAllocated = false)
    (hb : (region.allChunks b).isAllocated = false) :
    ∃ region',
      region.coalesceChunks (some a) (some b) = some (region', some a) ∧
        Merged bounds region region' (before ++ a :: after) pool a b := by
  have hbMem : b ∈ before ++ a :: b :: after := by simp
  have hle : (region.allChunks a).finish ≤ (region.allChunks b).first := by
    have hordered := (List.pairwise_append.mp hinv.layout.ordered).2.1
    exact (List.pairwise_cons.mp hordered).1 b (by simp)
  have hfirstLe := Layout.first_le_finish (region.allChunks a)
  obtain ⟨region', hcoalesce, hjoined, hlists⟩ :=
    hinv.lists.coalesceChunks ha hb (not_lt.mpr (hfirstLe.trans hle))
      ⟨hinv.layout.parent a (by simp), hinv.layout.parent b hbMem⟩
  have hfirst : (region'.allChunks a).first = (region.allChunks a).first := by
    rw [hjoined.first_info]
    rfl
  have hfinish : (region'.allChunks a).finish = (region.allChunks b).finish := by
    have hfinish := hinv.layout.finish_le hbMem
    have hlt := bounds.finish_lt
    rw [hjoined.first_info]
    simp only [ChunkInfo.finish, BitVec.toNat_sub, BitVec.toNat_add]
    unfold ChunkInfo.finish ChunkInfo.first at *
    omega
  have hfree : (region'.allChunks a).isAllocated = false := by
    rw [hjoined.first_info]
    exact ha
  have hlayout := hinv.layout.merge hjoined.same (by rw [hjoined.first_info])
    hfirst hfinish hfree
  refine ⟨region', hcoalesce, ⟨?_, hlists, ?_, ?_⟩, hjoined.strategy_eq, hfree,
    hjoined.same, hjoined.next_eq, ?_⟩
  · rw [hjoined.alignment_eq, hinv.alignment_eq]
  · rw [hjoined.address_eq, hjoined.last_eq]
    exact hlayout
  · intro chunk
    rcases hinv.cover chunk with hmem | hmem
    · by_cases heq : chunk = b
      · right
        simp [heq]
      · left
        simp only [List.mem_append, List.mem_cons] at hmem ⊢
        tauto
    · right
      simp [hmem]
  · intro chunk hhead
    exact hinv.layout.merge_head_first hjoined.same hfirst hhead

end RegionInvariant

end Pocl.Bufalloc
