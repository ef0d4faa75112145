import Pocl.BufallocSafety

/-!
# The fit test of the buffer allocator

`chunk_slack` returns the difference of two addresses as an `int`.  The sign that
its callers see is the bit 31 of the difference, and the size that
`append_new_chunk` leaves to the sentinel is the low 32 bits of it, extended by
this sign.
-/

namespace Pocl.Bufalloc

variable {n : ℕ}

/-- The aligned start of the chunk plus the size is at most the end of the
chunk. -/
def Fits (exponent : ℕ) (info : ChunkInfo) (size : BitVec 64) : Prop :=
  alignUp exponent info.first + size.toNat ≤ info.finish

instance (exponent : ℕ) (info : ChunkInfo) (size : BitVec 64) :
    Decidable (Fits exponent info size) :=
  inferInstanceAs (Decidable (_ ≤ _))

/-- The test is right for the chunk, and so are its two users. -/
structure FitTestExact
    (exponent : ℕ) (region : MemoryRegion n) (chunk : Fin n)
    (size : BitVec 64) : Prop where
  slack : ∃ slack, region.chunkSlack chunk size = some slack ∧
    (0 ≤ slack.toInt ↔ Fits exponent (region.allChunks chunk) size)
  reuse : chunk ≠ region.lastChunk →
    (region.allChunks chunk).isAllocated = false →
      region.isReusable size chunk =
        some (decide (Fits exponent (region.allChunks chunk) size))
  append : chunk = region.lastChunk →
    ((∃ region' new, region.appendNewChunk size = some (region', some new)) ↔
      Fits exponent (region.allChunks chunk) size ∧ region.freeChunks ≠ none)
  append_rest : chunk = region.lastChunk →
    ∀ region' new, region.appendNewChunk size = some (region', some new) →
      (region'.allChunks chunk).size.toNat +
          (alignUp exponent (region.allChunks chunk).first + size.toNat) =
        (region.allChunks chunk).finish

/-- The sign of the slack is the bit 31 of it, and a non-negative slack that is
stored in the sentinel is below `2 ^ 31`. -/
structure SlackKept
    (exponent : ℕ) (region : MemoryRegion n) (chunk : Fin n)
    (size : BitVec 64) : Prop where
  sign : 0 ≤ slackOf exponent (region.allChunks chunk).startAddress
        (region.allChunks chunk).size size ↔
    slackOf exponent (region.allChunks chunk).startAddress
        (region.allChunks chunk).size size % 2 ^ 32 < 2 ^ 31
  stored : chunk = region.lastChunk → region.freeChunks ≠ none →
    slackOf exponent (region.allChunks chunk).startAddress
        (region.allChunks chunk).size size < 2 ^ 31

instance (exponent : ℕ) (region : MemoryRegion n) (chunk : Fin n)
    (size : BitVec 64) : Decidable (SlackKept exponent region chunk size) :=
  decidable_of_iff (_ ∧ (_ → _ → _))
    ⟨fun hkept => ⟨hkept.1, hkept.2⟩, fun hkept => ⟨hkept.sign, hkept.stored⟩⟩

section FitTest

variable {exponent : ℕ} {region : MemoryRegion n} {records pool : List (Fin n)}
  {chunk : Fin n} {size : BitVec 64}

theorem fits_iff_slackOf :
    Fits exponent (region.allChunks chunk) size ↔
      0 ≤ slackOf exponent (region.allChunks chunk).startAddress
        (region.allChunks chunk).size size := by
  unfold Fits slackOf ChunkInfo.first ChunkInfo.finish
  omega

theorem toInt_slackBits_eq
    (hexponent : exponent ≤ 14)
    (halignment : region.alignment = alignmentOf exponent) :
    (region.slackBits chunk size).toInt =
      (slackOf exponent (region.allChunks chunk).startAddress
        (region.allChunks chunk).size size).bmod (2 ^ 32) := by
  rw [MemoryRegion.slackBits, halignment, toInt_slack_bmod hexponent]

theorem accepts_iff_emod
    (hexponent : exponent ≤ 14)
    (halignment : region.alignment = alignmentOf exponent) :
    Accepts region size chunk ↔
      slackOf exponent (region.allChunks chunk).startAddress
        (region.allChunks chunk).size size % 2 ^ 32 < 2 ^ 31 := by
  rw [Accepts, toInt_slackBits_eq hexponent halignment]
  simp only [Int.bmod_def]
  omega

theorem toNat_rest
    (hexponent : exponent ≤ 14)
    (halignment : region.alignment = alignmentOf exponent)
    (haccepts : Accepts region size chunk) :
    (((region.slackBits chunk size).signExtend 64).toNat : ℤ) =
      slackOf exponent (region.allChunks chunk).startAddress
        (region.allChunks chunk).size size % 2 ^ 32 := by
  have hsign := (accepts_iff_emod hexponent halignment).mp haccepts
  rw [toNat_signExtend_of_nonneg haccepts, toInt_slackBits_eq hexponent halignment]
  simp only [Int.bmod_def]
  omega

theorem appendNewChunk_iff
    (hchained : Chained region records pool) :
    (∃ region' new, region.appendNewChunk size = some (region', some new)) ↔
      Accepts region size region.lastChunk ∧ region.freeChunks ≠ none := by
  have hhead := hchained.lists.pool_list.head_eq
  constructor
  · rintro ⟨region', new, happend⟩
    by_contra hnot
    have hfull : ¬Accepts region size region.lastChunk ∨ pool = [] := by
      rw [not_and_or, not_not] at hnot
      refine hnot.imp_right fun hnone => ?_
      cases pool with
      | nil => rfl
      | cons fresh rest => simp [hhead] at hnone
    rw [hchained.appendNewChunk_none hfull] at happend
    simp at happend
  · rintro ⟨haccepts, hsome⟩
    cases pool with
    | nil => exact absurd hhead hsome
    | cons fresh rest =>
        obtain ⟨front, rfl⟩ := hchained.split_last
        obtain ⟨region', happend, _⟩ := hchained.appendNewChunk_some haccepts
        exact ⟨region', fresh, happend⟩

theorem appendNewChunk_last_size
    (hchained : Chained region records pool) {region' : MemoryRegion n}
    {new : Fin n} (happend : region.appendNewChunk size = some (region', some new)) :
    (region'.allChunks region.lastChunk).size =
      (region.slackBits region.lastChunk size).signExtend 64 := by
  obtain ⟨haccepts, hsome⟩ := (appendNewChunk_iff hchained).mp ⟨region', new, happend⟩
  cases pool with
  | nil => exact absurd hchained.lists.pool_list.head_eq hsome
  | cons fresh rest =>
      obtain ⟨front, rfl⟩ := hchained.split_last
      obtain ⟨other, hother, hplaced, _⟩ := hchained.appendNewChunk_some haccepts
      rw [happend] at hother
      cases hother
      rw [hplaced.last_info]

/-- For every chunk of a region and every size the fit test is exact if and only
if the slack keeps its sign and, where it is stored, its value. -/
theorem fitTestExact_iff
    (hexponent : exponent ≤ 14)
    (halignment : region.alignment = alignmentOf exponent)
    (hchained : Chained region records pool) (hchunk : chunk ∈ records) :
    FitTestExact exponent region chunk size ↔
      SlackKept exponent region chunk size := by
  have haccepts : Accepts region size chunk ↔ _ :=
    accepts_iff_emod hexponent halignment
  have hslack : region.chunkSlack chunk size = _ := hchained.chunkSlack_eq hchunk
  constructor
  · intro hexact
    have hsign : Accepts region size chunk ↔
        Fits exponent (region.allChunks chunk) size := by
      obtain ⟨slack, hsome, hiff⟩ := hexact.slack
      cases hslack.symm.trans hsome
      exact hiff
    refine ⟨by rw [← haccepts, hsign, fits_iff_slackOf], ?_⟩
    intro hlast hfree
    by_cases hfits : Fits exponent (region.allChunks chunk) size
    · obtain ⟨region', new, happend⟩ := (hexact.append hlast).mpr ⟨hfits, hfree⟩
      have hrest := hexact.append_rest hlast region' new happend
      have hkept := toNat_rest hexponent halignment (hsign.mpr hfits)
      rw [hlast, appendNewChunk_last_size hchained happend, ← hlast] at hrest
      have hbelow := haccepts.mp (hsign.mpr hfits)
      unfold slackOf ChunkInfo.first ChunkInfo.finish at *
      omega
    · rw [fits_iff_slackOf] at hfits
      omega
  · intro hkept
    have hsign : Accepts region size chunk ↔
        Fits exponent (region.allChunks chunk) size := by
      rw [haccepts, fits_iff_slackOf, hkept.sign]
    refine ⟨⟨_, hslack, hsign⟩, ?_, ?_, ?_⟩
    · intro hne hunallocated
      rw [hchained.isReusable_eq hchunk]
      simp [Taken, hne, hunallocated, hsign]
    · rintro rfl
      rw [appendNewChunk_iff hchained, hsign]
    · rintro rfl region' new happend
      obtain ⟨haccepted, hfree⟩ :=
        (appendNewChunk_iff hchained).mp ⟨region', new, happend⟩
      have hstored := hkept.stored rfl hfree
      have hnonneg := fits_iff_slackOf.mp (hsign.mp haccepted)
      have hrest := toNat_rest hexponent halignment haccepted
      rw [appendNewChunk_last_size hchained happend]
      unfold slackOf ChunkInfo.first ChunkInfo.finish at *
      omega

end FitTest

theorem page_fitTestExact :
    ∃ region,
      setUpRegion blankRegion 64 4096 6 .wasteful = some region ∧
        FitTestExact 6 region region.lastChunk 100 := by
  obtain ⟨region, hsetUp, hregion⟩ :=
    setUpRegion_setUp blankRegion 64 4096 6 .wasteful
  refine ⟨region, hsetUp, ?_⟩
  rw [fitTestExact_iff (by decide) hregion.alignment_eq hregion.chained
    hregion.chained.last_mem]
  have hslack : slackOf 6 (region.allChunks region.lastChunk).startAddress
      (region.allChunks region.lastChunk).size 100 = 3996 := by
    rw [hregion.last_eq, hregion.sentinel_eq]
    change slackOf 6 64 4096 100 = 3996
    decide
  constructor
  · rw [hslack]
    decide
  · rw [hslack]
    intros
    decide

/-- A region of `2 ^ 31 + 64` bytes refuses a request of one byte. -/
theorem hugeRegion_not_fitTestExact :
    ∃ region,
      setUpRegion blankRegion 64 2147483712 6 .wasteful = some region ∧
        ¬FitTestExact 6 region region.lastChunk 1 := by
  obtain ⟨region, hsetUp, hregion⟩ :=
    setUpRegion_setUp blankRegion 64 2147483712 6 .wasteful
  refine ⟨region, hsetUp, ?_⟩
  rintro ⟨⟨slack, hslack, hiff⟩, _⟩
  have hvalue : slack = 2147483711 := by
    rw [hregion.chained.chunkSlack_eq hregion.chained.last_mem] at hslack
    cases hslack
    rw [MemoryRegion.slackBits, hregion.alignment_eq, hregion.last_eq,
      hregion.sentinel_eq]
    change ((64 + 2147483712 - (alignAddress (alignmentOf 6) 64 + 1) :
      BitVec 64)).setWidth 32 = 2147483711
    decide
  have hfits : Fits 6 (region.allChunks region.lastChunk) 1 := by
    rw [hregion.last_eq, hregion.sentinel_eq]
    change alignUp 6 (64 : BitVec 64).toNat + (1 : BitVec 64).toNat ≤
      (64 : BitVec 64).toNat + (2147483712 : BitVec 64).toNat
    decide
  have hnonneg := hiff.mpr hfits
  rw [hvalue] at hnonneg
  exact absurd hnonneg (by decide)

end Pocl.Bufalloc
