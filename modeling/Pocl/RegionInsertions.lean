import Pocl.WorkitemLoopsEdits

/-!
# Blocks added to a parallel region

A region keeps the places of its entry and its exit in the vector of its blocks.
`AddBlockBefore` and `AddBlockAfter` put a new block into the vector, which moves every block
behind it by one place.  Only the place of the exit is adapted.

A call keeps the entry if its place is not behind the block that the call names.  The place of
the exit is right unless a block is added before the exit itself.
-/

namespace Pocl.RegionInsertions

open WorkitemLoops

/-- `AddBlockBefore`; the index of the entry stays as it is. -/
def addBlockBefore (region : ParallelRegion) (block before : BlockId) : ParallelRegion :=
  let oldExitPos := region.exitBB.elim region.blocks.length region.blocks.idxOf
  { region with
    blocks := insertBefore before block region.blocks
    exitIndex :=
      if region.blocks.idxOf before < oldExitPos then region.exitIndex + 1
      else region.exitIndex }

inductive Side
  | before
  | after
  deriving DecidableEq

/-- A call of one of the functions for a new block and a block of the region. -/
structure Call where
  side : Side
  block : BlockId
  anchor : BlockId
  deriving DecidableEq

def addBlock (region : ParallelRegion) (call : Call) : ParallelRegion :=
  match call.side with
  | .before => addBlockBefore region call.block call.anchor
  | .after => addBlockAfter region call.block call.anchor

/-- The blocks of a region are distinct, and two of them are its entry and its exit. -/
structure Distinct (region : ParallelRegion) : Prop where
  nodup : region.blocks.Nodup
  entry_lt : region.entryIndex < region.blocks.length
  exit_lt : region.exitIndex < region.blocks.length

/-- Each call of a run meets a condition in the region that it is made for. -/
def AllCalls (condition : ParallelRegion → Call → Prop) :
    ParallelRegion → List Call → Prop
  | _, [] => True
  | region, call :: rest =>
      condition region call ∧ AllCalls condition (addBlock region call) rest

/-- A new block, and a block of the region as the assertion has it. -/
def Legal (region : ParallelRegion) (call : Call) : Prop :=
  call.anchor ∈ region.blocks ∧ call.block ∉ region.blocks

/-- The entry and the exit are the same blocks, or the entry is the block before it. -/
def Preserved (region : ParallelRegion) (call : Call) : Prop :=
  (addBlock region call).entryBB =
      (if call.side = .before ∧ region.entryBB = some call.anchor then some call.block
      else region.entryBB) ∧
    (addBlock region call).exitBB = region.exitBB

/-- The entry is not behind the block of the call, and no block goes before the exit. -/
def EntryInFront (region : ParallelRegion) (call : Call) : Prop :=
  region.entryIndex ≤ region.blocks.idxOf call.anchor ∧
    (call.side = .before → region.exitBB ≠ some call.anchor)

section Vectors

variable {blocks : List BlockId} {block anchor : BlockId} {place index : ℕ}

theorem insertBefore_eq_insertIdx (hmem : anchor ∈ blocks) :
    insertBefore anchor block blocks =
      blocks.insertIdx (blocks.idxOf anchor) block := by
  induction blocks with
  | nil => cases hmem
  | cons head rest ih =>
      by_cases hhead : head = anchor
      · subst hhead
        rw [insertBefore, if_pos rfl, List.idxOf_cons_self, List.insertIdx_zero]
      · have hrest : anchor ∈ rest := (List.mem_cons.mp hmem).resolve_left (Ne.symm hhead)
        rw [insertBefore, if_neg hhead, List.idxOf_cons_ne _ hhead,
          List.insertIdx_succ_cons, ih hrest]

theorem insertAfter_eq_insertIdx (hmem : anchor ∈ blocks) :
    insertAfter anchor block blocks =
      blocks.insertIdx (blocks.idxOf anchor + 1) block := by
  induction blocks with
  | nil => cases hmem
  | cons head rest ih =>
      by_cases hhead : head = anchor
      · subst hhead
        rw [insertAfter, if_pos rfl, List.idxOf_cons_self,
          List.insertIdx_succ_cons, List.insertIdx_zero]
      · have hrest : anchor ∈ rest := (List.mem_cons.mp hmem).resolve_left (Ne.symm hhead)
        rw [insertAfter, if_neg hhead, List.idxOf_cons_ne _ hhead,
          List.insertIdx_succ_cons, ih hrest]

/-- Where a block is after another one was put into the vector. -/
theorem getElem?_insertIdx_eq_iff
    (hnodup : blocks.Nodup) (hnew : block ∉ blocks) (hindex : index < blocks.length)
    (other : ℕ) :
    (blocks.insertIdx place block)[other]? = blocks[index]? ↔
      other = if index < place then index else index + 1 := by
  rw [eq_comm]
  rcases Nat.lt_trichotomy other place with hlt | rfl | hgt
  · rw [List.getElem?_insertIdx_of_lt hlt, List.getElem?_inj hindex hnodup]
    split <;> omega
  · refine iff_of_false ?_ (by split <;> omega)
    intro heq
    rw [List.getElem?_insertIdx_self, List.getElem?_eq_getElem hindex] at heq
    by_cases hplace : other ≤ blocks.length
    · rw [if_pos hplace] at heq
      exact hnew (Option.some.inj heq ▸ List.getElem_mem hindex)
    · rw [if_neg hplace] at heq
      cases heq
  · rw [List.getElem?_insertIdx_of_gt hgt, List.getElem?_inj hindex hnodup]
    split <;> omega

end Vectors

section Steps

variable {region : ParallelRegion} {call : Call}

theorem Distinct.idxOf_eq_iff (hregion : Distinct region) {anchor : BlockId}
    (hmem : anchor ∈ region.blocks) {index : ℕ} (hindex : index < region.blocks.length) :
    region.blocks.idxOf anchor = index ↔ region.blocks[index]? = some anchor := by
  have hanchor := List.getElem?_idxOf hmem
  rw [← hanchor, List.getElem?_inj hindex hregion.nodup, eq_comm]

/-- The place of the exit that the functions look for is the one that the region keeps. -/
theorem Distinct.oldExitPos (hregion : Distinct region) :
    region.exitBB.elim region.blocks.length region.blocks.idxOf = region.exitIndex := by
  rw [ParallelRegion.exitBB, List.getElem?_eq_getElem hregion.exit_lt, Option.elim_some]
  exact hregion.nodup.idxOf_getElem _ hregion.exit_lt

/-- The place that a block is put to. -/
def Call.place (call : Call) (region : ParallelRegion) : ℕ :=
  match call.side with
  | .before => region.blocks.idxOf call.anchor
  | .after => region.blocks.idxOf call.anchor + 1

theorem addBlock_spec (hregion : Distinct region) (hlegal : Legal region call) :
    (addBlock region call).blocks =
        region.blocks.insertIdx (call.place region) call.block ∧
      (addBlock region call).entryIndex = region.entryIndex ∧
      (addBlock region call).exitIndex =
        if region.blocks.idxOf call.anchor < region.exitIndex then region.exitIndex + 1
        else region.exitIndex := by
  obtain ⟨side, block, anchor⟩ := call
  cases side with
  | before =>
      refine ⟨insertBefore_eq_insertIdx hlegal.1, rfl, ?_⟩
      rw [addBlock, addBlockBefore, hregion.oldExitPos]
  | after =>
      refine ⟨insertAfter_eq_insertIdx hlegal.1, rfl, ?_⟩
      rw [addBlock, addBlockAfter, hregion.oldExitPos]

theorem Call.place_le (hlegal : Legal region call) :
    call.place region ≤ region.blocks.length := by
  have hlt := List.idxOf_lt_length_of_mem hlegal.1
  rw [Call.place]
  split <;> omega

theorem Distinct.addBlock (hregion : Distinct region) (hlegal : Legal region call) :
    Distinct (addBlock region call) := by
  obtain ⟨hblocks, hentry, hexit⟩ := addBlock_spec hregion hlegal
  have hlength : (RegionInsertions.addBlock region call).blocks.length =
      region.blocks.length + 1 := by
    rw [hblocks, List.length_insertIdx_of_le_length (Call.place_le hlegal)]
  have hentryLt := hregion.entry_lt
  have hexitLt := hregion.exit_lt
  refine ⟨?_, by omega, ?_⟩
  · rw [hblocks, (List.perm_insertIdx _ _ (Call.place_le hlegal)).nodup_iff]
    exact List.nodup_cons.mpr ⟨hlegal.2, hregion.nodup⟩
  · rw [hexit, hlength]
    split <;> omega

theorem exitBB_addBlock_iff (hregion : Distinct region) (hlegal : Legal region call) :
    (addBlock region call).exitBB = region.exitBB ↔
      (call.side = .before → region.exitBB ≠ some call.anchor) := by
  obtain ⟨hblocks, -, hexit⟩ := addBlock_spec hregion hlegal
  have hplace := hregion.idxOf_eq_iff hlegal.1 hregion.exit_lt
  rw [ParallelRegion.exitBB, hblocks, ParallelRegion.exitBB,
    getElem?_insertIdx_eq_iff hregion.nodup hlegal.2 hregion.exit_lt, hexit, ne_eq, ← hplace,
    Call.place]
  cases call.side with
  | before =>
      simp only [true_implies]
      split <;> split <;> omega
  | after =>
      simp only [reduceCtorEq, false_implies, iff_true]
      split <;> split <;> omega

theorem entryBB_addBlock_eq_iff (hregion : Distinct region) (hlegal : Legal region call) :
    (addBlock region call).entryBB = region.entryBB ↔
      region.entryIndex < call.place region := by
  obtain ⟨hblocks, hentry, -⟩ := addBlock_spec hregion hlegal
  rw [ParallelRegion.entryBB, hblocks, hentry, ParallelRegion.entryBB,
    getElem?_insertIdx_eq_iff hregion.nodup hlegal.2 hregion.entry_lt]
  split <;> omega

theorem entryBB_addBlock_of_entry (hregion : Distinct region) (hlegal : Legal region call)
    (hside : call.side = .before) (hentryBB : region.entryBB = some call.anchor) :
    (addBlock region call).entryBB = some call.block := by
  obtain ⟨hblocks, hentry, -⟩ := addBlock_spec hregion hlegal
  have hplace : call.place region = region.entryIndex := by
    rw [Call.place, hside]
    exact (hregion.idxOf_eq_iff hlegal.1 hregion.entry_lt).mpr hentryBB
  rw [ParallelRegion.entryBB, hblocks, hentry, hplace, List.getElem?_insertIdx_self,
    if_pos (Nat.le_of_lt hregion.entry_lt)]

theorem preserved_iff (hregion : Distinct region) (hlegal : Legal region call) :
    Preserved region call ↔ EntryInFront region call := by
  unfold Preserved EntryInFront
  rw [exitBB_addBlock_iff hregion hlegal]
  refine and_congr_left fun _ => ?_
  by_cases hentry : call.side = .before ∧ region.entryBB = some call.anchor
  · rw [if_pos hentry]
    refine iff_of_true (entryBB_addBlock_of_entry hregion hlegal hentry.1 hentry.2) ?_
    exact Nat.le_of_eq
      ((hregion.idxOf_eq_iff hlegal.1 hregion.entry_lt).mpr hentry.2).symm
  · rw [if_neg hentry, entryBB_addBlock_eq_iff hregion hlegal, Call.place]
    cases hside : call.side with
    | before =>
        have hne : region.blocks.idxOf call.anchor ≠ region.entryIndex := fun heq =>
          hentry ⟨hside, (hregion.idxOf_eq_iff hlegal.1 hregion.entry_lt).mp heq⟩
        dsimp only
        omega
    | after => exact Nat.lt_succ_iff

end Steps

section Runs

variable {region : ParallelRegion} {calls : List Call}

theorem allCalls_preserved_iff
    (hregion : Distinct region) (hlegal : AllCalls Legal region calls) :
    AllCalls Preserved region calls ↔ AllCalls EntryInFront region calls := by
  induction calls generalizing region with
  | nil => rfl
  | cons call rest ih =>
      exact and_congr (preserved_iff hregion hlegal.1)
        (ih (hregion.addBlock hlegal.1) hlegal.2)

end Runs

section Unrolling

variable {region : ParallelRegion} {func func' : WorkitemLoops.Func} {exit lastBB : BlockId}

theorem eq_freshBlock_of_appendIncBlock
    (happend : appendIncBlock func exit .x = some (func', lastBB)) :
    lastBB = func.freshBlock := by
  unfold appendIncBlock at happend
  cases hsucc : (func.succs exit)[0]? with
  | none =>
      rw [hsucc] at happend
      cases happend
  | some oldExit =>
      rw [hsucc] at happend
      exact (Prod.ext_iff.mp (Option.some.inj happend)).2.symm

/-- The last block becomes the exit.  The entry is kept if it is in front of the old exit. -/
theorem setExitBB_addBlockAfter
    (hregion : Distinct region) (hnew : lastBB ∉ region.blocks)
    (hexit : region.exitBB = some exit) :
    ∃ result, setExitBB (addBlockAfter region lastBB exit) lastBB = some result ∧
      result.exitBB = some lastBB ∧
      (result.entryBB = region.entryBB ↔ region.entryIndex ≤ region.exitIndex) := by
  have hmem : exit ∈ region.blocks := List.mem_of_getElem? hexit
  have hlegal : Legal region ⟨.after, lastBB, exit⟩ := ⟨hmem, hnew⟩
  have hplace := (hregion.idxOf_eq_iff hmem hregion.exit_lt).mpr hexit
  obtain ⟨hblocks, -, -⟩ := addBlock_spec hregion hlegal
  have hlast : lastBB ∈ (addBlockAfter region lastBB exit).blocks := by
    change lastBB ∈ (addBlock region ⟨.after, lastBB, exit⟩).blocks
    rw [hblocks]
    exact (List.mem_insertIdx (Call.place_le hlegal)).mpr (.inl rfl)
  refine ⟨_, if_pos hlast, List.getElem?_idxOf hlast, ?_⟩
  have hentry := entryBB_addBlock_eq_iff hregion hlegal
  rw [Call.place, hplace] at hentry
  exact hentry.trans Nat.lt_succ_iff

end Unrolling

/-- Entry and exit survive exactly the calls that are not in front of the entry and do not
add a block before the exit.  The unrolled loops keep an entry in front of the exit. -/
theorem region_insertions_iff {region : ParallelRegion} (hregion : Distinct region) :
    (∀ calls, AllCalls Legal region calls →
      (AllCalls Preserved region calls ↔ AllCalls EntryInFront region calls)) ∧
    ∀ func func' exit lastBB, (∀ block ∈ region.blocks, block < func.freshBlock) →
      region.exitBB = some exit → appendIncBlock func exit .x = some (func', lastBB) →
        ∃ result, setExitBB (addBlockAfter region lastBB exit) lastBB = some result ∧
          result.exitBB = some lastBB ∧
          (result.entryBB = region.entryBB ↔ region.entryIndex ≤ region.exitIndex) := by
  refine ⟨fun calls hlegal => allCalls_preserved_iff hregion hlegal, ?_⟩
  intro func func' exit lastBB hblocks hexit happend
  have hlast := eq_freshBlock_of_appendIncBlock happend
  refine setExitBB_addBlockAfter hregion ?_ hexit
  intro hmem
  exact absurd (hblocks lastBB hmem) (by rw [hlast]; exact Nat.lt_irrefl _)

/-- The entry 0 is behind the exit 1 in the function. -/
def backwardRegion : ParallelRegion where
  blocks := [1, 0]
  exitIndex := 0
  entryIndex := 1
  idLoad _ := 0

theorem backwardRegion_distinct : Distinct backwardRegion :=
  ⟨by decide, by decide, by decide⟩

/-- Blocks behind and before the entry, in this region. -/
theorem region_insertions_iff_backwardRegion :
    AllCalls Preserved backwardRegion [⟨.after, 2, 0⟩, ⟨.before, 3, 0⟩] :=
  ((region_insertions_iff backwardRegion_distinct).1 [⟨.after, 2, 0⟩, ⟨.before, 3, 0⟩]
    ⟨⟨by decide, by decide⟩, ⟨by decide, by decide⟩, trivial⟩).mpr
    ⟨⟨by decide, by decide⟩, ⟨by decide, by decide⟩, trivial⟩

/-- The entry becomes the new block, in one call and when the loop is unrolled. -/
theorem backwardRegion_entry_lost :
    Distinct backwardRegion ∧ Legal backwardRegion ⟨.after, 2, 1⟩ ∧
      ¬ Preserved backwardRegion ⟨.after, 2, 1⟩ ∧ backwardRegion.exitBB = some 1 ∧
      (setExitBB (addBlockAfter backwardRegion 2 1) 2).bind ParallelRegion.entryBB = some 2 ∧
      backwardRegion.entryBB = some 0 := by
  refine ⟨backwardRegion_distinct, ⟨by decide, by decide⟩, ?_, rfl, rfl, rfl⟩
  rintro ⟨hentry, -⟩
  exact absurd hentry (by decide)

end Pocl.RegionInsertions
