import Pocl.BlockRelations
import Pocl.WorkitemReplication

/-!
# The copies for the work-items

Before any copy is linked, the copy of a region for a work-item is a clone of
the region whose operands are resolved as far as the value map of the work-item
goes at that time.  The blocks and values of different copies are different.
-/

namespace Pocl

namespace WorkitemReplication

open ParallelRegion

/-- What the pass is given of a region. -/
structure ValidRegion
    (module : ModuleValues) (func : Func) (region : ParallelRegion) : Prop where
  nodup : region.blocks.Nodup
  mem_order : ∀ block ∈ region.blocks, block ∈ func.order
  entry : ∃ entry, region.entryBB = some entry
  exit : ∃ exit successor, region.exitBB = some exit ∧
    func.succs exit = [successor]
  idLoads : ∀ dim, loadedId module func (region.idLoad dim) = some dim

/-- What the pass is given: blocks and values with identities of their own, and
regions whose exits have one successor. -/
structure Valid
    (module : ModuleValues) (func : Func) (regions : List ParallelRegion) :
    Prop where
  blocks : func.HasBlocks
  values_nodup : (definedIn func func.order).Nodup
  values_lt : ∀ value ∈ definedIn func func.order, value < func.freshValue
  localIds : ∀ dim, module.localId dim ∉ definedIn func func.order
  unreachable : ∀ block ∈ func.order,
    (func.body block).term.opcode = opcodeUnreachable → func.succs block = []
  regions : ∀ region ∈ regions, ValidRegion module func region

/-- The same operand, or two loads of the same local id. -/
def SameOperand
    (module : ModuleValues) (func : Func) (operand other : ValueId) : Prop :=
  other = operand ∨ ∃ dim, loadedId module func operand = some dim ∧
    loadedId module func other = some dim

def Localizes (module : ModuleValues) (func : Func) : Block → Block → Prop :=
  RelatedBlock id (SameOperand module func) Eq

section Localizing

variable {module : ModuleValues} {func : Func}

theorem SameOperand.trans {first second third : ValueId}
    (hfirst : SameOperand module func first second)
    (hsecond : SameOperand module func second third) :
    SameOperand module func first third := by
  rcases hfirst with rfl | ⟨dim, hload, hloadSecond⟩
  · exact hsecond
  · rcases hsecond with rfl | ⟨other, hloadOther, hloadThird⟩
    · exact Or.inr ⟨dim, hload, hloadSecond⟩
    · rw [hloadSecond] at hloadOther
      cases hloadOther
      exact Or.inr ⟨dim, hload, hloadThird⟩

theorem Localizes.refl (content : Block) :
    Localizes module func content content :=
  RelatedBlock.refl (fun _ => Or.inl rfl) (fun _ => rfl) content

theorem Localizes.trans {first second third : Block}
    (hfirst : Localizes module func first second)
    (hsecond : Localizes module func second third) :
    Localizes module func first third := by
  refine RelatedBlock.comp ?_ ?_ hfirst hsecond
  · exact fun _ _ _ hab hbc => hab.trans hbc
  · exact fun _ _ _ hab hbc => hab.trans hbc

theorem Localizes.blockValues_eq {first second : Block}
    (hlocalizes : Localizes module func first second) :
    blockValues second = blockValues first := by
  unfold blockValues
  rw [map_id_of_related hlocalizes.instrs, hlocalizes.term_id]
  rfl

/-- The function with some of its blocks localized. -/
structure LocalizedFrom (module : ModuleValues) (func after : Func) : Prop where
  order_eq : after.order = func.order
  body : ∀ block ∈ func.order,
    Localizes module func (func.body block) (after.body block)

theorem loadedId_mem {value : ValueId} {dim : Dim}
    (hload : loadedId module func value = some dim) :
    value ∈ definedIn func func.order := by
  unfold loadedId at hload
  obtain ⟨instr, hfind, _⟩ := Option.bind_eq_some_iff.mp hload
  obtain ⟨block, hblock, hinstr⟩ :=
    List.mem_flatMap.mp (List.mem_of_find?_eq_some hfind)
  have hid : instr.id = value := by simpa using List.find?_some hfind
  refine List.mem_flatMap.mpr ⟨block, hblock, ?_⟩
  rw [← hid]
  exact List.mem_append_left _ (List.mem_map_of_mem hinstr)

/-- The local id that an instruction of this kind loads. -/
def kindLoads (module : ModuleValues) : InstrKind → Option Dim
  | .other opcode [pointer] =>
      if opcode = opcodeLoad then
        [Dim.x, Dim.y, Dim.z].find? fun dim => pointer = module.localId dim
      else
        none
  | _ => none

theorem loadedId_eq (value : ValueId) :
    loadedId module func value =
      ((func.order.flatMap fun block => (func.body block).instrs).find?
        fun instr => instr.id = value).bind fun instr =>
          kindLoads module instr.kind := by
  unfold loadedId
  change Option.bind _ _ = _
  congr 1

/-- A load of a local id is not changed by localizing. -/
theorem kindLoads_of_related
    (hlocalIds : ∀ dim, module.localId dim ∉ definedIn func func.order)
    {first second : InstrKind}
    (hrelated : RelatedKind (SameOperand module func) Eq first second) :
    kindLoads module second = kindLoads module first := by
  cases hrelated with
  | barrier => rfl
  | phi hincoming => rfl
  | other opcode hoperands =>
      cases hoperands with
      | nil => rfl
      | cons hpointer hrest =>
          cases hrest with
          | cons _ _ => rfl
          | nil =>
              rcases hpointer with rfl | ⟨dim, hload, hloadOther⟩
              · rfl
              · have hnone : ∀ {pointer : ValueId},
                    pointer ∈ definedIn func func.order →
                    kindLoads module (.other opcode [pointer]) = none := by
                  intro pointer hpointer
                  unfold kindLoads
                  simp only
                  split
                  · refine List.find?_eq_none.mpr ?_
                    intro other _ heq
                    exact hlocalIds other (of_decide_eq_true heq ▸ hpointer)
                  · rfl
                rw [hnone (loadedId_mem hload), hnone (loadedId_mem hloadOther)]

theorem find?_of_related {rename : ValueId → ValueId}
    {value : ValueId → ValueId → Prop} {block : BlockId → BlockId → Prop}
    (hrename : rename = id) {first second : List Instr}
    (hrelated : List.Forall₂ (RelatedInstr rename value block) first second)
    (key : ValueId) :
    Option.Rel (RelatedInstr rename value block)
      (first.find? fun instr => instr.id = key)
      (second.find? fun instr => instr.id = key) := by
  subst hrename
  induction hrelated with
  | nil => exact Option.Rel.none
  | @cons a b _ _ hinstr _ ih =>
      have hid : b.id = a.id := hinstr.id_eq
      by_cases hkey : a.id = key
      · rw [List.find?_cons_of_pos (by simpa using hkey),
          List.find?_cons_of_pos (by simpa [hid] using hkey)]
        exact Option.Rel.some hinstr
      · rw [List.find?_cons_of_neg (by simpa using hkey),
          List.find?_cons_of_neg (by simpa [hid] using hkey)]
        exact ih

theorem LocalizedFrom.loadedId_eq {after : Func}
    (hlocalized : LocalizedFrom module func after)
    (hlocalIds : ∀ dim, module.localId dim ∉ definedIn func func.order)
    (value : ValueId) :
    loadedId module after value = loadedId module func value := by
  have hinstrs : List.Forall₂ (RelatedInstr id (SameOperand module func) Eq)
      (func.order.flatMap fun block => (func.body block).instrs)
      (after.order.flatMap fun block => (after.body block).instrs) := by
    rw [hlocalized.order_eq]
    have hbody := hlocalized.body
    generalize func.order = order at hbody
    induction order with
    | nil => exact List.Forall₂.nil
    | cons block rest ih =>
        rw [List.flatMap_cons, List.flatMap_cons]
        refine List.rel_append (hbody block List.mem_cons_self).instrs (ih ?_)
        exact fun other hother => hbody other (List.mem_cons_of_mem _ hother)
  rw [WorkitemReplication.loadedId_eq, WorkitemReplication.loadedId_eq]
  have hfind := find?_of_related rfl hinstrs value
  generalize (func.order.flatMap fun block => (func.body block).instrs).find? _ =
    first at hfind ⊢
  generalize (after.order.flatMap fun block =>
    (after.body block).instrs).find? _ = second at hfind ⊢
  cases hfind with
  | none => rfl
  | some hinstr => exact kindLoads_of_related hlocalIds hinstr.kind

theorem LocalizedFrom.definedIn_eq {after : Func}
    (hlocalized : LocalizedFrom module func after) {blocks : List BlockId}
    (hblocks : ∀ block ∈ blocks, block ∈ func.order) :
    definedIn after blocks = definedIn func blocks := by
  unfold definedIn
  apply List.flatMap_congr
  intro block hblock
  exact (hlocalized.body block (hblocks block hblock)).blockValues_eq

end Localizing

/-- The block is in the region of this index. -/
def HasBlock (regions : List ParallelRegion) (index : ℕ) (block : BlockId) : Prop :=
  ∃ region, regions[index]? = some region ∧ block ∈ region.blocks

/-- The value is defined in the region of this index. -/
def Defines
    (func : Func) (regions : List ParallelRegion) (index : ℕ) (value : ValueId) :
    Prop :=
  ∃ region, regions[index]? = some region ∧ value ∈ definedIn func region.blocks

section Resolving

variable (module : ModuleValues) (func : Func) (regions : List ParallelRegion)

/-- An operand in a copy: a value of the region itself is the one of this copy,
and any other value is itself or comes from some copy for the work-item. -/
def CopiedBy
    (copies : ℕ → Copy) (done : ℕ → Prop) (index : ℕ) (operand other : ValueId) :
    Prop :=
  (Defines func regions index operand → other = (copies index).value operand) ∧
    (other = operand ∨ ∃ source, done source ∧
      Defines func regions source operand ∧
      other = (copies source).value operand)

def Resolved
    (copies : ℕ → Copy) (done : ℕ → Prop) (index : ℕ) (operand other : ValueId) :
    Prop :=
  ∃ local_, SameOperand module func operand local_ ∧
    CopiedBy func regions copies done index local_ other

/-- A block inside the region is the one of this copy, and other blocks are
outside of it. -/
def BlockCopiedBy (copies : ℕ → Copy) (index : ℕ) (target other : BlockId) :
    Prop :=
  (HasBlock regions index target → other = (copies index).block target) ∧
    (target < func.freshBlock → ¬HasBlock regions index target →
      ∀ block, HasBlock regions index block → other ≠ (copies index).block block)

/-- The copies made when work-item `item` has its first `count` regions. -/
def Done (item count : ℕ) (other index : ℕ) : Prop :=
  1 ≤ other ∧ (other < item ∨ other = item ∧ index < count)

def copyRegion (copy : Copy) (region : ParallelRegion) : ParallelRegion :=
  { region with blocks := region.blocks.map copy.block }

/-- The state between two replications. -/
structure Replicating
    (item count : ℕ) (state : State) (copies : ℕ → ℕ → Copy) : Prop where
  localized : LocalizedFrom module func state.func
  freshBlock_le : func.freshBlock ≤ state.func.freshBlock
  freshValue_le : func.freshValue ≤ state.func.freshValue
  regions_zero : state.parallelRegions 0 = regions
  regions_length : ∀ other, 1 ≤ other → (state.parallelRegions other).length =
    if other < item then regions.length else if other = item then count else 0
  regions_get : ∀ other index region, Done item count other index →
    regions[index]? = some region →
      (state.parallelRegions other)[index]? =
        some (copyRegion (copies other index) region)
  block_range : ∀ other index block, Done item count other index →
    HasBlock regions index block →
      func.freshBlock ≤ (copies other index).block block ∧
        (copies other index).block block < state.func.freshBlock
  block_injective : ∀ other index block other' index' block',
    Done item count other index → HasBlock regions index block →
    Done item count other' index' → HasBlock regions index' block' →
    (copies other index).block block = (copies other' index').block block' →
      other = other' ∧ index = index' ∧ block = block'
  value_range : ∀ other index value, Done item count other index →
    Defines func regions index value →
      func.freshValue ≤ (copies other index).value value ∧
        (copies other index).value value < state.func.freshValue
  value_injective : ∀ other index value other' index' value',
    Done item count other index → Defines func regions index value →
    Done item count other' index' → Defines func regions index' value' →
    (copies other index).value value = (copies other' index').value value' →
      other = other' ∧ index = index' ∧ value = value'
  body : ∀ other index block, Done item count other index →
    HasBlock regions index block →
      RelatedBlock (copies other index).value
        (Resolved module func regions (copies other)
          (Done item count other) index)
        (BlockCopiedBy func regions (copies other) index)
        (func.body block) (state.func.body ((copies other index).block block))
  values_some : ∀ other key value,
    (state.referenceMap other).values key = some value →
      ∃ index, Done item count other index ∧ Defines func regions index key ∧
        value = (copies other index).value key
  values_defined : ∀ other index key, Done item count other index →
    Defines func regions index key →
      (state.referenceMap other).values key ≠ none
  blocks_some : ∀ other key block,
    (state.referenceMap other).blocks key = some block →
      ∃ index, Done item count other index ∧ HasBlock regions index key ∧
        block = (copies other index).block key

end Resolving

section Steps

variable {module : ModuleValues} {func : Func} {regions : List ParallelRegion}

theorem Done.cases {item count other index : ℕ}
    (hdone : Done item (count + 1) other index) :
    Done item count other index ∨ other = item ∧ index = count := by
  obtain ⟨hpos, hearlier | ⟨heq, hlt⟩⟩ := hdone
  · exact Or.inl ⟨hpos, Or.inl hearlier⟩
  · rcases Nat.lt_succ_iff_lt_or_eq.mp hlt with hlt | hindex
    · exact Or.inl ⟨hpos, Or.inr ⟨heq, hlt⟩⟩
    · exact Or.inr ⟨heq, hindex⟩

theorem Done.succ {item count other index : ℕ}
    (hdone : Done item count other index) : Done item (count + 1) other index := by
  obtain ⟨hpos, hearlier | ⟨heq, hlt⟩⟩ := hdone
  · exact ⟨hpos, Or.inl hearlier⟩
  · exact ⟨hpos, Or.inr ⟨heq, hlt.trans (Nat.lt_succ_self _)⟩⟩

theorem Done.last {item count : ℕ} (hitem : 1 ≤ item) :
    Done item (count + 1) item count :=
  ⟨hitem, Or.inr ⟨rfl, Nat.lt_succ_self _⟩⟩

theorem Done.ne {item count other index : ℕ}
    (hdone : Done item count other index) : ¬(other = item ∧ index = count) := by
  rintro ⟨rfl, rfl⟩
  obtain ⟨_, hlt | ⟨_, hlt⟩⟩ := hdone
  · exact lt_irrefl _ hlt
  · exact lt_irrefl _ hlt

theorem HasBlock.mem_order
    (hvalid : Valid module func regions) {index : ℕ} {block : BlockId}
    (hblock : HasBlock regions index block) : block ∈ func.order := by
  obtain ⟨region, hregion, hmem⟩ := hblock
  exact (hvalid.regions region (List.mem_of_getElem? hregion)).mem_order block hmem

theorem Defines.mem
    (hvalid : Valid module func regions) {index : ℕ} {value : ValueId}
    (hvalue : Defines func regions index value) :
    value ∈ definedIn func func.order := by
  obtain ⟨region, hregion, hmem⟩ := hvalue
  obtain ⟨block, hblock, hvalue⟩ := List.mem_flatMap.mp hmem
  have horder := (hvalid.regions region (List.mem_of_getElem? hregion)).mem_order
  exact List.mem_flatMap.mpr ⟨block, horder block hblock, hvalue⟩

theorem HasBlock.iff {index : ℕ} {region : ParallelRegion}
    (hregion : regions[index]? = some region) {block : BlockId} :
    HasBlock regions index block ↔ block ∈ region.blocks := by
  constructor
  · rintro ⟨other, hother, hmem⟩
    rw [hregion] at hother
    cases hother
    exact hmem
  · exact fun hmem => ⟨region, hregion, hmem⟩

theorem Defines.iff {index : ℕ} {region : ParallelRegion}
    (hregion : regions[index]? = some region) {value : ValueId} :
    Defines func regions index value ↔ value ∈ definedIn func region.blocks := by
  constructor
  · rintro ⟨other, hother, hmem⟩
    rw [hregion] at hother
    cases hother
    exact hmem
  · exact fun hmem => ⟨region, hregion, hmem⟩

/-- Operands resolved so far stay resolved when more copies are known. -/
theorem Resolved.mono
    {copies later : ℕ → Copy} {done doneLater : ℕ → Prop} {index : ℕ}
    (hindex : later index = copies index)
    (hdone : ∀ source, done source →
      doneLater source ∧ later source = copies source)
    {operand other : ValueId}
    (hresolved : Resolved module func regions copies done index operand other) :
    Resolved module func regions later doneLater index operand other := by
  obtain ⟨local_, hsame, hinside, hsource⟩ := hresolved
  refine ⟨local_, hsame, ?_, ?_⟩
  · rw [hindex]
    exact hinside
  · rcases hsource with heq | ⟨source, hsourceDone, hdefines, heq⟩
    · exact Or.inl heq
    · obtain ⟨hlater, hsame⟩ := hdone source hsourceDone
      exact Or.inr ⟨source, hlater, hdefines, by rw [hsame]; exact heq⟩

theorem BlockCopiedBy.congr
    {copies later : ℕ → Copy} {index : ℕ} (hindex : later index = copies index)
    {target other : BlockId}
    (hcopied : BlockCopiedBy func regions copies index target other) :
    BlockCopiedBy func regions later index target other := by
  unfold BlockCopiedBy
  rw [hindex]
  exact hcopied

/-- The copies with one more. -/
def addCopy (copies : ℕ → ℕ → Copy) (item count : ℕ) (copy : Copy) :
    ℕ → ℕ → Copy :=
  Function.update copies item (Function.update (copies item) count copy)

theorem addCopy_self (copies : ℕ → ℕ → Copy) (item count : ℕ) (copy : Copy) :
    addCopy copies item count copy item count = copy := by
  unfold addCopy
  rw [Function.update_self, Function.update_self]

theorem addCopy_of_ne
    {copies : ℕ → ℕ → Copy} {item count : ℕ} {copy : Copy} {other index : ℕ}
    (hne : ¬(other = item ∧ index = count)) :
    addCopy copies item count copy other index = copies other index := by
  unfold addCopy
  by_cases heq : other = item
  · subst heq
    rw [Function.update_self, Function.update_of_ne fun hindex => hne ⟨rfl, hindex⟩]
  · rw [Function.update_of_ne heq]

section Adding

variable {item count : ℕ} {copies : ℕ → ℕ → Copy} {copy : Copy} {pick : Copy → ℕ → ℕ}
  {has : ℕ → ℕ → Prop} {start fresh fresh' : ℕ}

theorem Done.addCopy_cases
    {other index : ℕ} (hdone : Done item (count + 1) other index) (copies : ℕ → ℕ → Copy)
    (copy : Copy) :
    Done item count other index ∧
        addCopy copies item count copy other index = copies other index ∨
      other = item ∧ index = count := by
  rcases hdone.cases with hdone | hlast
  · exact Or.inl ⟨hdone, addCopy_of_ne hdone.ne⟩
  · exact Or.inr hlast

theorem addCopy_range
    (hold : ∀ other index key, Done item count other index → has index key →
      start ≤ pick (copies other index) key ∧ pick (copies other index) key < fresh)
    (hnew : ∀ key, has count key → fresh ≤ pick copy key ∧ pick copy key < fresh')
    (hstart : start ≤ fresh) (hfresh : fresh ≤ fresh') {other index key : ℕ}
    (hdone : Done item (count + 1) other index) (hkey : has index key) :
    start ≤ pick (addCopy copies item count copy other index) key ∧
      pick (addCopy copies item count copy other index) key < fresh' := by
  rcases hdone.addCopy_cases copies copy with ⟨hdone, hsame⟩ | ⟨rfl, rfl⟩
  · rw [hsame]
    obtain ⟨hlow, hhigh⟩ := hold other index key hdone hkey
    exact ⟨hlow, hhigh.trans_le hfresh⟩
  · rw [addCopy_self]
    exact ⟨hstart.trans (hnew key hkey).1, (hnew key hkey).2⟩

theorem addCopy_injective
    (hold : ∀ other index key, Done item count other index → has index key →
      start ≤ pick (copies other index) key ∧ pick (copies other index) key < fresh)
    (hnew : ∀ key, has count key → fresh ≤ pick copy key ∧ pick copy key < fresh')
    (hinjective : ∀ other index key other' index' key',
      Done item count other index → has index key → Done item count other' index' →
      has index' key' → pick (copies other index) key = pick (copies other' index') key' →
        other = other' ∧ index = index' ∧ key = key')
    (hnewInjective : ∀ key, has count key → ∀ key', has count key' →
      pick copy key = pick copy key' → key = key')
    {other index key other' index' key' : ℕ} (hdone : Done item (count + 1) other index)
    (hkey : has index key) (hdone' : Done item (count + 1) other' index')
    (hkey' : has index' key')
    (heq : pick (addCopy copies item count copy other index) key =
      pick (addCopy copies item count copy other' index') key') :
    other = other' ∧ index = index' ∧ key = key' := by
  rcases hdone.addCopy_cases copies copy with ⟨hdone, hsame⟩ | ⟨rfl, rfl⟩
  · rw [hsame] at heq
    rcases hdone'.addCopy_cases copies copy with ⟨hdone', hsame'⟩ | ⟨rfl, rfl⟩
    · rw [hsame'] at heq
      exact hinjective _ _ _ _ _ _ hdone hkey hdone' hkey' heq
    · rw [addCopy_self] at heq
      exact absurd heq ((hold _ _ _ hdone hkey).2.trans_le (hnew _ hkey').1).ne
  · rw [addCopy_self] at heq
    rcases hdone'.addCopy_cases copies copy with ⟨hdone', hsame'⟩ | ⟨rfl, rfl⟩
    · rw [hsame'] at heq
      exact absurd heq.symm ((hold _ _ _ hdone' hkey').2.trans_le (hnew _ hkey).1).ne
    · rw [addCopy_self] at heq
      exact ⟨rfl, rfl, hnewInjective _ hkey _ hkey' heq⟩

/-- What the value maps of the work-items give comes from a copy. -/
theorem addCopy_some
    (lookup : ValueToValueMap → ℕ → Option ℕ) {maps : ℕ → ValueToValueMap}
    {mapAfter : ValueToValueMap} (hitem : 1 ≤ item)
    (hold : ∀ other key found, lookup (maps other) key = some found →
      ∃ index, Done item count other index ∧ has index key ∧
        found = pick (copies other index) key)
    (hinside : ∀ key, has count key → lookup mapAfter key = some (pick copy key))
    (houtside : ∀ key, ¬ has count key → lookup mapAfter key = lookup (maps item) key)
    {other key found : ℕ}
    (hfound : lookup (Function.update maps item mapAfter other) key = some found) :
    ∃ index, Done item (count + 1) other index ∧ has index key ∧
      found = pick (addCopy copies item count copy other index) key := by
  have hearlier : lookup (maps other) key = some found →
      ∃ index, Done item (count + 1) other index ∧ has index key ∧
        found = pick (addCopy copies item count copy other index) key := by
    intro hmap
    obtain ⟨index, hdone, hkey, heq⟩ := hold other key found hmap
    exact ⟨index, hdone.succ, hkey, by rw [addCopy_of_ne hdone.ne]; exact heq⟩
  by_cases heq : other = item
  · subst heq
    rw [Function.update_self] at hfound
    by_cases hin : has count key
    · rw [hinside key hin, Option.some.injEq] at hfound
      exact ⟨count, Done.last hitem, hin, by rw [addCopy_self]; exact hfound.symm⟩
    · rw [houtside key hin] at hfound
      exact hearlier hfound
  · rw [Function.update_of_ne heq] at hfound
    exact hearlier hfound

end Adding

section Replicate

variable {item count : ℕ} {state : State} {copies : ℕ → ℕ → Copy}
variable {region : ParallelRegion} {after : Func} {mapAfter : ValueToValueMap}
variable {clone : ParallelRegion} {copy : Copy}

/-- The operands of a new clone. -/
theorem Replicating.resolved_new
    (hstate : Replicating module func regions item count state copies)
    (hvalid : Valid module func regions) (hitem : 1 ≤ item)
    (hregion : regions[count]? = some region)
    (hreplicates : Replicates module state.func region (state.referenceMap item)
      after mapAfter clone copy)
    (operand : ValueId) :
    CopiedBy func regions (addCopy copies item count copy item)
      (Done item (count + 1) item) count operand (mapAfter.value operand) := by
  have hmem := (hvalid.regions region (List.mem_of_getElem? hregion)).mem_order
  have hdefined := hstate.localized.definedIn_eq hmem
  have hvalues := hreplicates.values_eq operand
  rw [hdefined] at hvalues
  unfold CopiedBy
  rw [addCopy_self]
  by_cases hin : operand ∈ definedIn func region.blocks
  · rw [if_pos hin] at hvalues
    have hvalue : mapAfter.value operand = copy.value operand := by
      unfold ValueToValueMap.value
      rw [hvalues]
      rfl
    refine ⟨fun _ => hvalue, Or.inr ⟨count, Done.last hitem,
      (Defines.iff hregion).mpr hin, ?_⟩⟩
    rw [addCopy_self]
    exact hvalue
  · rw [if_neg hin] at hvalues
    refine ⟨fun hdefines => absurd ((Defines.iff hregion).mp hdefines) hin, ?_⟩
    cases hentry : (state.referenceMap item).values operand with
    | none =>
        left
        unfold ValueToValueMap.value
        rw [hvalues, hentry]
        rfl
    | some value =>
        right
        obtain ⟨index, hdone, hdefines, heq⟩ :=
          hstate.values_some item operand value hentry
        refine ⟨index, hdone.succ, hdefines, ?_⟩
        rw [addCopy_of_ne hdone.ne, ← heq]
        unfold ValueToValueMap.value
        rw [hvalues, hentry]
        rfl

theorem Replicating.blockCopied_new
    (hstate : Replicating module func regions item count state copies)
    (hregion : regions[count]? = some region)
    (hreplicates : Replicates module state.func region (state.referenceMap item)
      after mapAfter clone copy)
    (target : BlockId) :
    BlockCopiedBy func regions (addCopy copies item count copy item) count target
      (mapAfter.block target) := by
  have hblocks := hreplicates.blocks_eq target
  unfold BlockCopiedBy
  rw [addCopy_self]
  by_cases hin : target ∈ region.blocks
  · rw [if_pos hin] at hblocks
    refine ⟨fun _ => ?_, fun _ hnot => absurd ((HasBlock.iff hregion).mpr hin) hnot⟩
    unfold ValueToValueMap.block
    rw [hblocks]
    rfl
  · rw [if_neg hin] at hblocks
    refine ⟨fun hhas => absurd ((HasBlock.iff hregion).mp hhas) hin, ?_⟩
    intro hbound _ block hblock
    have hrange := hreplicates.block_range block ((HasBlock.iff hregion).mp hblock)
    apply Nat.ne_of_lt
    refine Nat.lt_of_lt_of_le ?_ hrange.1
    unfold ValueToValueMap.block
    rw [hblocks]
    cases hentry : (state.referenceMap item).blocks target with
    | none => exact hbound.trans_le hstate.freshBlock_le
    | some other =>
        obtain ⟨index, hdone, hhas, heq⟩ :=
          hstate.blocks_some item target other hentry
        rw [Option.getD_some, heq]
        exact (hstate.block_range item index target hdone hhas).2

/-- The kernel itself is changed only where loads of the local ids are localized. -/
theorem Replicating.localized_new
    (hstate : Replicating module func regions item count state copies)
    (hvalid : Valid module func regions) (hregion : regions[count]? = some region)
    (hreplicates : Replicates module state.func region (state.referenceMap item)
      after mapAfter clone copy) :
    LocalizedFrom module func after := by
  have hregionValid := hvalid.regions region (List.mem_of_getElem? hregion)
  refine ⟨hreplicates.order_eq.trans hstate.localized.order_eq, ?_⟩
  intro block hblock
  have hlocal := hstate.localized.body block hblock
  rw [hreplicates.body_old block
    ((hvalid.blocks.bound block hblock).trans_le hstate.freshBlock_le)]
  by_cases hin : block ∈ region.blocks
  · rw [if_pos hin]
    refine hlocal.trans (relatedBlock_mapOperands ?_ (fun _ => rfl) _)
    intro operand
    unfold localizeOperand
    split
    · exact Or.inl rfl
    · rw [hstate.localized.loadedId_eq hvalid.localIds]
      cases hload : loadedId module func operand with
      | none => exact Or.inl rfl
      | some dim => exact Or.inr ⟨dim, hload, hregionValid.idLoads dim⟩
  · rw [if_neg hin]
    exact hlocal

theorem Replicating.regions_get_new
    (hstate : Replicating module func regions item count state copies)
    (hitem : 1 ≤ item) (hregion : regions[count]? = some region)
    (hreplicates : Replicates module state.func region (state.referenceMap item)
      after mapAfter clone copy)
    {other index : ℕ} {otherRegion : ParallelRegion}
    (hdone : Done item (count + 1) other index)
    (hget : regions[index]? = some otherRegion) :
    (Function.update state.parallelRegions item (state.parallelRegions item ++ [clone])
        other)[index]? =
      some (copyRegion (addCopy copies item count copy other index) otherRegion) := by
  have hlength := hstate.regions_length item hitem
  rw [if_neg (lt_irrefl _), if_pos rfl] at hlength
  rcases hdone.addCopy_cases copies copy with ⟨hdone, hsame⟩ | ⟨rfl, rfl⟩
  · rw [hsame]
    have hold := hstate.regions_get other index otherRegion hdone hget
    by_cases heq : other = item
    · subst heq
      have hlt : index < (state.parallelRegions other).length :=
        (List.getElem?_eq_some_iff.mp hold).1
      rw [Function.update_self, List.getElem?_append_left hlt]
      exact hold
    · rw [Function.update_of_ne heq]
      exact hold
  · rw [hregion] at hget
    cases hget
    rw [Function.update_self, List.getElem?_append_right (le_of_eq hlength),
      hlength, Nat.sub_self, addCopy_self, hreplicates.clone_eq]
    rfl

/-- The blocks of the earlier copies are kept, and those of the new one are related to the
blocks of the kernel. -/
theorem Replicating.body_new
    (hstate : Replicating module func regions item count state copies)
    (hvalid : Valid module func regions) (hitem : 1 ≤ item)
    (hregion : regions[count]? = some region)
    (hreplicates : Replicates module state.func region (state.referenceMap item)
      after mapAfter clone copy)
    {other index : ℕ} {block : BlockId} (hdone : Done item (count + 1) other index)
    (hblock : HasBlock regions index block) :
    RelatedBlock (addCopy copies item count copy other index).value
      (Resolved module func regions (addCopy copies item count copy other)
        (Done item (count + 1) other) index)
      (BlockCopiedBy func regions (addCopy copies item count copy other) index)
      (func.body block)
      (after.body ((addCopy copies item count copy other index).block block)) := by
  have hmem := (hvalid.regions region (List.mem_of_getElem? hregion)).mem_order
  rcases hdone.addCopy_cases copies copy with ⟨hdone, hsame⟩ | ⟨rfl, rfl⟩
  · obtain ⟨hlow, hhigh⟩ := hstate.block_range other index block hdone hblock
    have hnot : (copies other index).block block ∉ region.blocks := fun hin =>
      absurd hlow (not_le.mpr (hvalid.blocks.bound _ (hmem _ hin)))
    rw [hsame, hreplicates.body_old _ hhigh, if_neg hnot]
    refine (hstate.body other index block hdone hblock).mono ?_ ?_
    · intro operand result hresolved
      refine hresolved.mono hsame ?_
      intro source hsource
      exact ⟨hsource.succ, addCopy_of_ne hsource.ne⟩
    · intro target result hcopied
      exact hcopied.congr hsame
  · have hin := (HasBlock.iff hregion).mp hblock
    rw [addCopy_self, hreplicates.body_clone block hin]
    have hlocal := hstate.localized.body block (hmem block hin)
    have hrenamed := RelatedBlock.comp (fun _ _ _ hab hbc => hbc ▸ hab)
      (fun _ _ _ hab hbc => hab.trans hbc) hlocal
      (relatedBlock_renameIds copy.value (state.func.body block))
    have hmapped := relatedBlock_mapOperands
      (hstate.resolved_new hvalid hitem hregion hreplicates)
      (hstate.blockCopied_new hregion hreplicates)
      (renameIds copy.value (state.func.body block))
    change RelatedBlock (id ∘ (copy.value ∘ id)) _ _ _ _
    refine RelatedBlock.comp ?_ ?_ hrenamed hmapped
    · exact fun operand local_ result hsame hcopied =>
        ⟨local_, hsame, hcopied⟩
    · rintro target _ result rfl hcopied
      exact hcopied

theorem Replicating.step
    (hstate : Replicating module func regions item count state copies)
    (hvalid : Valid module func regions) (hitem : 1 ≤ item)
    (hregion : regions[count]? = some region)
    (hreplicates : Replicates module state.func region (state.referenceMap item)
      after mapAfter clone copy) :
    Replicating module func regions item (count + 1)
      { func := after
        referenceMap := Function.update state.referenceMap item mapAfter
        parallelRegions := Function.update state.parallelRegions item
          (state.parallelRegions item ++ [clone]) }
      (addCopy copies item count copy) := by
  have hdefined := hstate.localized.definedIn_eq
    (hvalid.regions region (List.mem_of_getElem? hregion)).mem_order
  have hblockNew : ∀ block, HasBlock regions count block →
      state.func.freshBlock ≤ copy.block block ∧
        copy.block block < after.freshBlock := fun block hblock =>
    hreplicates.block_range _ ((HasBlock.iff hregion).mp hblock)
  have hvalueMem : ∀ value, Defines func regions count value →
      value ∈ definedIn state.func region.blocks := fun value hvalue =>
    hdefined ▸ (Defines.iff hregion).mp hvalue
  have hvalueNew : ∀ value, Defines func regions count value →
      state.func.freshValue ≤ copy.value value ∧
        copy.value value < after.freshValue := fun value hvalue =>
    hreplicates.value_range _ (hvalueMem value hvalue)
  exact {
    localized := hstate.localized_new hvalid hregion hreplicates
    freshBlock_le := hstate.freshBlock_le.trans hreplicates.freshBlock_le
    freshValue_le := hstate.freshValue_le.trans hreplicates.freshValue_le
    regions_zero := by
      simp only [Function.update_of_ne (Nat.ne_of_lt hitem)]
      exact hstate.regions_zero
    regions_length := by
      intro other hother
      simp only
      by_cases heq : other = item
      · subst heq
        have hlength := hstate.regions_length other hother
        rw [if_neg (lt_irrefl _), if_pos rfl] at hlength
        rw [Function.update_self, List.length_append, hlength, if_neg (lt_irrefl _),
          if_pos rfl]
        rfl
      · rw [Function.update_of_ne heq, hstate.regions_length other hother,
          if_neg heq, if_neg heq]
    regions_get := fun _ _ _ hdone hget =>
      hstate.regions_get_new hitem hregion hreplicates hdone hget
    block_range := fun _ _ _ hdone hblock =>
      addCopy_range hstate.block_range hblockNew hstate.freshBlock_le
        hreplicates.freshBlock_le hdone hblock
    block_injective := fun _ _ _ _ _ _ hdone hblock hdone' hblock' heq =>
      addCopy_injective hstate.block_range hblockNew hstate.block_injective
        (fun block hblock block' hblock' => hreplicates.block_injective block
          ((HasBlock.iff hregion).mp hblock) block' ((HasBlock.iff hregion).mp hblock'))
        hdone hblock hdone' hblock' heq
    value_range := fun _ _ _ hdone hvalue =>
      addCopy_range hstate.value_range hvalueNew hstate.freshValue_le
        hreplicates.freshValue_le hdone hvalue
    value_injective := fun _ _ _ _ _ _ hdone hvalue hdone' hvalue' heq =>
      addCopy_injective hstate.value_range hvalueNew hstate.value_injective
        (fun value hvalue value' hvalue' => hreplicates.value_injective value
          (hvalueMem value hvalue) value' (hvalueMem value' hvalue'))
        hdone hvalue hdone' hvalue' heq
    body := fun _ _ _ hdone hblock =>
      hstate.body_new hvalid hitem hregion hreplicates hdone hblock
    values_some := fun _ _ _ hvalue =>
      addCopy_some ValueToValueMap.values hitem hstate.values_some
        (fun key hin => by rw [hreplicates.values_eq, if_pos (hvalueMem key hin)])
        (fun key hnot => by
          rw [hreplicates.values_eq, hdefined, if_neg fun hin =>
            hnot ((Defines.iff hregion).mpr hin)]) hvalue
    values_defined := by
      intro other index key hdone hdefines hnone
      simp only at hnone
      rcases hdone.cases with hdone | ⟨rfl, rfl⟩
      · by_cases heq : other = item
        · subst heq
          rw [Function.update_self, hreplicates.values_eq] at hnone
          split at hnone
          · cases hnone
          · exact hstate.values_defined other index key hdone hdefines hnone
        · rw [Function.update_of_ne heq] at hnone
          exact hstate.values_defined other index key hdone hdefines hnone
      · rw [Function.update_self, hreplicates.values_eq, hdefined,
          if_pos ((Defines.iff hregion).mp hdefines)] at hnone
        cases hnone
    blocks_some := fun _ _ _ hblock =>
      addCopy_some ValueToValueMap.blocks hitem hstate.blocks_some
        (fun key hin => by
          rw [hreplicates.blocks_eq, if_pos ((HasBlock.iff hregion).mp hin)])
        (fun key hnot => by
          rw [hreplicates.blocks_eq, if_neg fun hin =>
            hnot ((HasBlock.iff hregion).mpr hin)]) hblock }

end Replicate

end Steps

end WorkitemReplication

end Pocl
