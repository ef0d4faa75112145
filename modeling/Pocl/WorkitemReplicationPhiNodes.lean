import Mathlib.Data.List.TakeWhile
import Pocl.OptionPrograms
import Pocl.WorkitemReplicationRuns

/-!
# Own copies for each work-item

When all copies are linked, only PHI nodes are moved: those of the entry of each copy go to
the block before it.  So each block of a copy has the code of the block it was made from, up
to these PHI nodes and the stores of the local ids, and all of it uses values of its own
work-item.  The first work-item runs the blocks of the kernel itself.
-/

namespace Pocl

namespace WorkitemReplication

open ParallelRegion

def nonPhis (content : Block) : List Instr :=
  content.instrs.filter fun instr => !instr.kind.isPhi

theorem filter_takeWhile (instrs : List Instr) :
    (instrs.takeWhile fun instr => instr.kind.isPhi).filter (fun instr => !instr.kind.isPhi) =
      [] := by
  refine List.filter_eq_nil_iff.mpr fun instr hinstr => ?_
  rw [List.mem_takeWhile_imp hinstr]
  decide

theorem filter_dropWhile (instrs : List Instr) :
    (instrs.dropWhile fun instr => instr.kind.isPhi).filter (fun instr => !instr.kind.isPhi) =
      instrs.filter fun instr => !instr.kind.isPhi := by
  conv_rhs => rw [← List.takeWhile_append_dropWhile (p := fun instr : Instr => instr.kind.isPhi)
    (l := instrs), List.filter_append, filter_takeWhile, List.nil_append]

section Moving

variable {sources : Set BlockId} {before after : Func}

/-- PHI nodes of some blocks are moved to other blocks of the function. -/
structure MovesPhis (sources : Set BlockId) (before after : Func) : Prop where
  order : after.order = before.order
  term : ∀ block, (after.body block).term = (before.body block).term
  nonPhis : ∀ block, nonPhis (after.body block) = nonPhis (before.body block)
  kept : ∀ block, ∀ instr ∈ (before.body block).instrs, instr ∈ (after.body block).instrs ∨
    instr.kind.isPhi = true ∧ ∃ other ∈ before.order, instr ∈ (after.body other).instrs
  from_source : ∀ block, ∀ instr ∈ (after.body block).instrs, instr ∈ (before.body block).instrs ∨
    instr.kind.isPhi = true ∧ ∃ source ∈ sources, instr ∈ (before.body source).instrs

theorem MovesPhis.refl (func : Func) : MovesPhis sources func func :=
  ⟨rfl, fun _ => rfl, fun _ => rfl, fun _ _ hinstr => .inl hinstr, fun _ _ hinstr => .inl hinstr⟩

theorem MovesPhis.trans {last : Func} (hfirst : MovesPhis sources before after)
    (hsecond : MovesPhis sources after last) : MovesPhis sources before last where
  order := hsecond.order.trans hfirst.order
  term block := (hsecond.term block).trans (hfirst.term block)
  nonPhis block := (hsecond.nonPhis block).trans (hfirst.nonPhis block)
  kept block instr hinstr := by
    rcases hfirst.kept block instr hinstr with hstays | ⟨hphi, other, hother, hmoved⟩
    · rw [← hfirst.order]
      exact hsecond.kept block instr hstays
    · rcases hsecond.kept other instr hmoved with hstays | ⟨-, later, hlater, hmoved⟩
      · exact .inr ⟨hphi, other, hother, hstays⟩
      · exact .inr ⟨hphi, later, hfirst.order ▸ hlater, hmoved⟩
  from_source block instr hinstr := by
    rcases hsecond.from_source block instr hinstr with hstays | ⟨hphi, source, hsource, hmoved⟩
    · exact hfirst.from_source block instr hstays
    · rcases hfirst.from_source source instr hmoved with hstays | ⟨-, hmoved⟩
      · exact .inr ⟨hphi, source, hsource, hstays⟩
      · exact .inr ⟨hphi, hmoved⟩

theorem movePhiNodes_moves {func after : Func} {src dst : BlockId} (hsrc : src ∈ sources)
    (hdst : dst ∈ func.order) (hmove : movePhiNodes func src dst = some after) :
    MovesPhis sources func after := by
  unfold movePhiNodes at hmove
  by_cases heq : src = dst
  · simp only [if_pos heq] at hmove
    split at hmove
    · cases hmove
      exact .refl func
    · cases hmove
  · simp only [if_neg heq, Option.some.injEq] at hmove
    subst hmove
    have hphi : ∀ instr ∈ (func.body src).instrs.takeWhile fun instr => instr.kind.isPhi,
        instr.kind.isPhi = true := fun _ hinstr =>
      List.mem_takeWhile_imp (p := fun instr : Instr => instr.kind.isPhi) hinstr
    have hsplit : ∀ block, ∀ instr ∈ (func.body block).instrs,
        instr ∈ (func.body block).instrs.takeWhile (fun instr => instr.kind.isPhi) ∨
          instr ∈ (func.body block).instrs.dropWhile fun instr => instr.kind.isPhi := by
      intro block instr hinstr
      rw [← List.mem_append, List.takeWhile_append_dropWhile]
      exact hinstr
    refine ⟨rfl, fun block => ?_, fun block => ?_, fun block instr hinstr => ?_,
      fun block instr hinstr => ?_⟩
    · by_cases hblock : block = dst
      · rw [hblock, Func.setBody_self]
      · rw [Func.setBody_of_ne _ _ hblock]
        by_cases hblock : block = src
        · rw [hblock, Func.setBody_self]
        · rw [Func.setBody_of_ne _ _ hblock]
    · by_cases hblock : block = dst
      · rw [hblock, Func.setBody_self, nonPhis, List.filter_append, List.filter_append,
          filter_takeWhile, filter_takeWhile, filter_dropWhile]
        rfl
      · rw [Func.setBody_of_ne _ _ hblock]
        by_cases hblock : block = src
        · rw [hblock, Func.setBody_self]
          exact filter_dropWhile _
        · rw [Func.setBody_of_ne _ _ hblock]
    · by_cases hblock : block = dst
      · rw [hblock] at hinstr ⊢
        rw [Func.setBody_self]
        exact .inl (List.mem_append.mpr ((hsplit dst instr hinstr).imp_right
          (List.mem_append_right _)))
      · rw [Func.setBody_of_ne _ _ hblock]
        by_cases hblock : block = src
        · rw [hblock] at hinstr ⊢
          rw [Func.setBody_self]
          rcases hsplit src instr hinstr with hmoved | hstays
          · refine .inr ⟨hphi instr hmoved, dst, hdst, ?_⟩
            rw [Func.setBody_self]
            exact List.mem_append_right _ (List.mem_append_left _ hmoved)
          · exact .inl hstays
        · rw [Func.setBody_of_ne _ _ hblock]
          exact .inl hinstr
    · by_cases hblock : block = dst
      · rw [hblock, Func.setBody_self] at hinstr
        rcases List.mem_append.mp hinstr with hstays | hinstr
        · exact .inl (hblock ▸ List.takeWhile_subset _ hstays)
        · rcases List.mem_append.mp hinstr with hmoved | hstays
          · exact .inr ⟨hphi instr hmoved, src, hsrc, List.takeWhile_subset _ hmoved⟩
          · exact .inl (hblock ▸ List.dropWhile_subset _ hstays)
      · rw [Func.setBody_of_ne _ _ hblock] at hinstr
        by_cases hblock : block = src
        · rw [hblock, Func.setBody_self] at hinstr
          exact .inl (hblock ▸ List.dropWhile_subset _ hinstr)
        · rw [Func.setBody_of_ne _ _ hblock] at hinstr
          exact .inl hinstr

theorem getUniquePredecessor_mem {func : Func} {block pred : BlockId}
    (hpred : getUniquePredecessor func block = some pred) : pred ∈ func.order := by
  unfold getUniquePredecessor at hpred
  split at hpred
  next other hfilter =>
    cases hpred
    exact List.mem_of_mem_filter (hfilter ▸ List.mem_singleton_self pred)
  next => cases hpred

theorem moveRegionPhiNodes_moves {regions : List ParallelRegion} {func after : Func} {i : ℕ}
    (hsources : ∀ region ∈ regions, ∀ entry, region.entryBB = some entry → entry ∈ sources)
    (hmove : moveRegionPhiNodes regions func i = some after) :
    MovesPhis sources func after := by
  obtain ⟨region, hregion, hmove⟩ := Option.bind_eq_some_iff.mp hmove
  obtain ⟨entry, hentry, hmove⟩ := Option.bind_eq_some_iff.mp hmove
  obtain ⟨pred, hpred, hmove⟩ := Option.bind_eq_some_iff.mp hmove
  exact movePhiNodes_moves (hsources region (List.mem_of_getElem? hregion) entry hentry)
    (getUniquePredecessor_mem hpred) hmove

theorem moveItemPhiNodes_moves {regions : ℕ → List ParallelRegion} {func after : Func}
    {index : ℕ} (hsources : 0 < index → ∀ region ∈ regions index, ∀ entry,
      region.entryBB = some entry → entry ∈ sources)
    (hmove : moveItemPhiNodes regions func index = some after) :
    MovesPhis sources func after := by
  unfold moveItemPhiNodes at hmove
  split at hmove
  · cases hmove
    exact .refl func
  next hpos =>
    refine Meets.iff_forall.mp (Meets.foldlM (fun _ now => MovesPhis sources func now) ?_
      (.refl func)) after hmove
    intro i _ now hnow
    exact Meets.of_forall fun _ hstep =>
      hnow.trans (moveRegionPhiNodes_moves (hsources (Nat.pos_of_ne_zero hpos)) hstep)

theorem foldlM_moveItemPhiNodes {regions : ℕ → List ParallelRegion} {func after : Func}
    {indices : List ℕ} (hsources : ∀ index ∈ indices, 0 < index → ∀ region ∈ regions index,
      ∀ entry, region.entryBB = some entry → entry ∈ sources)
    (hmove : indices.foldlM (moveItemPhiNodes regions) func = some after) :
    MovesPhis sources func after := by
  refine (Meets.iff_forall.mp (Meets.foldlM
    (fun rest now => rest ⊆ indices ∧ MovesPhis sources func now) ?_
    ⟨List.Subset.refl _, .refl func⟩) after hmove).2
  rintro index rest now ⟨hrest, hnow⟩
  obtain ⟨hindex, hrest⟩ := List.cons_subset.mp hrest
  exact Meets.of_forall fun _ hstep =>
    ⟨hrest, hnow.trans (moveItemPhiNodes_moves (hsources index hindex) hstep)⟩

end Moving

section Own

variable {module : ModuleValues} {func : Func} {regions : List ParallelRegion}
  {copies : ℕ → ℕ → Copy} {base state : State} {total : ℕ}

def IsEntry (regions : List ParallelRegion) (index : ℕ) (entry : BlockId) : Prop :=
  ∃ region, regions[index]? = some region ∧ region.entryBB = some entry

theorem IsEntry.hasBlock {index : ℕ} {entry : BlockId} (hentry : IsEntry regions index entry) :
    HasBlock regions index entry := by
  obtain ⟨region, hregion, hentry⟩ := hentry
  exact ⟨region, hregion, List.mem_of_getElem? hentry⟩

/-- The PHI node is one of the entry of a copy. -/
def EntryPhi (regions : List ParallelRegion) (total : ℕ) (contents : ℕ → ℕ → BlockId → Block)
    (instr : Instr) : Prop :=
  instr.kind.isPhi = true ∧ ∃ item index entry, 0 < item ∧ item < total ∧
    IsEntry regions index entry ∧ instr ∈ (contents item index entry).instrs

/-- The block has the content, but PHI nodes of it may be in another block of the function.
There may be stores of local ids and PHI nodes of other entries. -/
structure Placed (module : ModuleValues) (after : Func) (entryPhi : Instr → Prop)
    (content block : Block) : Prop where
  term_id : block.term.id = content.term.id
  opcode : block.term.opcode = content.term.opcode
  operands : block.term.operands = content.term.operands
  code : (nonPhis content).Sublist (nonPhis block)
  kept : ∀ instr ∈ content.instrs, instr ∈ block.instrs ∨
    instr.kind.isPhi = true ∧ ∃ other ∈ after.order, instr ∈ (after.body other).instrs
  only : ∀ instr ∈ block.instrs, instr ∈ content.instrs ∨
    (∃ id dim value, instr = storeLocalId module id dim value) ∨ entryPhi instr

/-- The copies of the regions for the work-items.  The first one has the regions themselves,
and all others have new blocks and values.  The content of each block uses values of its own
work-item. -/
structure OwnCopies (module : ModuleValues) (func : Func) (regions : List ParallelRegion)
    (total : ℕ) (after : Func) (copies : ℕ → ℕ → Copy) (contents : ℕ → ℕ → BlockId → Block) :
    Prop where
  first : ∀ index, copies 0 index = ⟨id, id⟩
  block_new : ∀ item index block, Done total 0 item index → HasBlock regions index block →
    (copies item index).block block ∉ func.order
  value_new : ∀ item index value, Done total 0 item index → Defines func regions index value →
    (copies item index).value value ∉ definedIn func func.order
  block_injective : ∀ item index block item' index' block',
    Done total 0 item index → HasBlock regions index block →
    Done total 0 item' index' → HasBlock regions index' block' →
    (copies item index).block block = (copies item' index').block block' →
      item = item' ∧ index = index' ∧ block = block'
  value_injective : ∀ item index value item' index' value',
    Done total 0 item index → Defines func regions index value →
    Done total 0 item' index' → Defines func regions index' value' →
    (copies item index).value value = (copies item' index').value value' →
      item = item' ∧ index = index' ∧ value = value'
  related : ∀ item index block, item < total → HasBlock regions index block →
    RelatedBlock (copies item index).value (UsesOwn module func regions (copies item) index)
      (fun target other => HasBlock regions index target → other = (copies item index).block target)
      (func.body block) (contents item index block)
  placed : ∀ item index block, item < total → HasBlock regions index block →
    Placed module after (EntryPhi regions total contents) (contents item index block)
      (after.body ((copies item index).block block))

/-- The first work-item has no copies. -/
def withFirst (copies : ℕ → ℕ → Copy) : ℕ → ℕ → Copy
  | 0 => fun _ => ⟨id, id⟩
  | item + 1 => copies (item + 1)

theorem withFirst_of_pos {item : ℕ} (hitem : 0 < item) : withFirst copies item = copies item := by
  cases item with
  | zero => cases hitem
  | succ item => rfl

theorem Done.of_lt {item index : ℕ} (hpos : 0 < item) (hlt : item < total) :
    Done total 0 item index :=
  ⟨hpos, .inl hlt⟩

theorem Linking.linkedBlock (hbase : Replicating module func regions total 0 base copies)
    (hvalid : Valid module func regions)
    (hlinking : Linking module func regions copies total base total 0 state)
    {item index : ℕ} {block : BlockId} (hitem : item < total)
    (hblock : HasBlock regions index block) :
    LinkedBlock module func regions (withFirst copies item) index (func.body block)
      (state.func.body ((withFirst copies item index).block block)) := by
  rcases Nat.eq_zero_or_pos item with rfl | hpos
  · have horder := hblock.mem_order hvalid
    refine ⟨base.func.body block, ?_, hlinking.originals block horder⟩
    refine (hbase.localized.body block horder).mono (fun operand local_ hsame => ?_)
      fun target other hsame _ => hsame.symm
    exact ⟨local_, hsame, fun _ => rfl, fun source hdefines => ⟨source, hdefines, rfl⟩,
      fun _ => rfl⟩
  · rw [withFirst_of_pos hpos]
    exact hlinking.linked item index block (.of_lt hpos hitem) (.inl hitem) hblock

/-- After linking, the entry of a region is still the one that the copy began with. -/
theorem Linking.entry (hbase : Replicating module func regions total 0 base copies)
    (hlinking : Linking module func regions copies total base total 0 state)
    {item : ℕ} (hpos : 0 < item) (hlt : item < total) {region : ParallelRegion}
    (hregion : region ∈ state.parallelRegions item) {entry : BlockId}
    (hentry : region.entryBB = some entry) (hvalid : Valid module func regions) :
    ∃ index original, IsEntry regions index original ∧
      entry = (copies item index).block original := by
  obtain ⟨index, hindex⟩ := List.getElem?_of_mem hregion
  obtain ⟨old, hold, hextends⟩ := hlinking.blocks item index region hindex
  have hlength := hbase.regions_length item hpos
  rw [if_pos hlt] at hlength
  have hbound : index < regions.length := hlength ▸ (List.getElem?_eq_some_iff.mp hold).1
  obtain ⟨source, hsource⟩ : ∃ source, regions[index]? = some source :=
    ⟨_, List.getElem?_eq_getElem hbound⟩
  obtain ⟨original, horiginal⟩ :=
    (hvalid.regions source (List.mem_of_getElem? hsource)).entry
  rw [hbase.regions_get item index source (.of_lt hpos hlt) hsource] at hold
  cases hold
  have hcopied : (copyRegion (copies item index) source).entryBB =
      some ((copies item index).block original) := by
    unfold ParallelRegion.entryBB at horiginal ⊢
    rw [copyRegion, List.getElem?_map, horiginal, Option.map_some]
  rw [hextends.entryBB hcopied] at hentry
  exact ⟨index, original, ⟨source, hsource, horiginal⟩, (Option.some.inj hentry).symm⟩

theorem Keeps.placed {before after : Func} {sources : Set BlockId} {content : Block}
    {block : BlockId} {entryPhi : Instr → Prop}
    (hkeeps : Keeps module content (before.body block)) (hmoves : MovesPhis sources before after)
    (hsources : ∀ source ∈ sources, ∀ instr ∈ (before.body source).instrs,
      instr.kind.isPhi = true → entryPhi instr) :
    Placed module after entryPhi content (after.body block) where
  term_id := (congrArg Terminator.id (hmoves.term block)).trans hkeeps.term_id
  opcode := (congrArg Terminator.opcode (hmoves.term block)).trans hkeeps.opcode
  operands := (congrArg Terminator.operands (hmoves.term block)).trans hkeeps.operands
  code := by
    rw [hmoves.nonPhis]
    exact hkeeps.instrs.filter _
  kept instr hinstr := by
    rw [hmoves.order]
    exact hmoves.kept block instr (hkeeps.instrs.subset hinstr)
  only instr hinstr := by
    rcases hmoves.from_source block instr hinstr with hstays | ⟨hphi, source, hsource, hmoved⟩
    · exact (hkeeps.stores instr hstays).imp_right .inl
    · exact .inr (.inr (hsources source hsource instr hmoved hphi))

/-- The second region uses a value of the first one, in a PHI node of its entry. -/
def sharedValueKernel : Func where
  order := [0, 1, 2, 3, 4]
  body
    | 0 => ⟨[⟨0, .barrier⟩], ⟨1, 2, [], [1]⟩⟩
    | 1 => ⟨[⟨2, .other opcodeLoad [1000]⟩, ⟨3, .other opcodeLoad [1001]⟩,
        ⟨4, .other opcodeLoad [1002]⟩, ⟨5, .other 8 [2, 2]⟩], ⟨6, 2, [], [2]⟩⟩
    | 2 => ⟨[⟨7, .barrier⟩], ⟨8, 2, [], [3]⟩⟩
    | 3 => ⟨[⟨9, .phi [(5, 2)]⟩, ⟨10, .other opcodeLoad [1000]⟩, ⟨11, .other opcodeLoad [1001]⟩,
        ⟨12, .other opcodeLoad [1002]⟩, ⟨13, .other 8 [9, 10]⟩], ⟨14, 2, [], [4]⟩⟩
    | _ => ⟨[⟨15, .barrier⟩], ⟨16, 1, [], []⟩⟩
  freshBlock := 5
  freshValue := 17

def sharedValueModule : ModuleValues where
  localId
    | .x => 1000
    | .y => 1001
    | .z => 1002
  constantInt value := 2000 + value

def sharedValueRegions : List ParallelRegion :=
  [⟨[1], 0, 0, fun | .x => 2 | .y => 3 | .z => 4⟩,
    ⟨[3], 0, 0, fun | .x => 10 | .y => 11 | .z => 12⟩]

theorem sharedValue_valid :
    Valid sharedValueModule sharedValueKernel sharedValueRegions where
  blocks := ⟨by decide, by decide, by decide, by decide⟩
  values_nodup := by decide
  values_lt := by decide
  localIds dim := by cases dim <;> decide
  unreachable := by decide
  regions region hregion := by
    rcases List.mem_pair.mp hregion with rfl | rfl
    · exact ⟨by decide, by decide, ⟨1, rfl⟩, ⟨1, 2, rfl, rfl⟩, fun dim => by cases dim <;> decide⟩
    · exact ⟨by decide, by decide, ⟨3, rfl⟩, ⟨3, 4, rfl, rfl⟩, fun dim => by cases dim <;> decide⟩

end Own

end WorkitemReplication

end Pocl
