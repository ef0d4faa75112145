import Pocl.ParallelRegionsCloning

/-!
# Related blocks

Two blocks are related if their instructions agree one by one, up to a renaming
of the instructions and relations between the operands and between the blocks
they refer to.  Clones, remapped blocks and localized blocks are all related to
the block they come from, and relations compose.
-/

namespace Pocl

inductive RelatedKind
    (value : ValueId → ValueId → Prop) (block : BlockId → BlockId → Prop) :
    InstrKind → InstrKind → Prop
  | barrier : RelatedKind value block .barrier .barrier
  | phi {first second : List (ValueId × BlockId)}
      (hincoming : List.Forall₂
        (fun entry other => value entry.1 other.1 ∧ block entry.2 other.2)
        first second) :
      RelatedKind value block (.phi first) (.phi second)
  | other (opcode : ℕ) {first second : List ValueId}
      (hoperands : List.Forall₂ value first second) :
      RelatedKind value block (.other opcode first) (.other opcode second)

structure RelatedInstr
    (rename : ValueId → ValueId) (value : ValueId → ValueId → Prop)
    (block : BlockId → BlockId → Prop) (first second : Instr) : Prop where
  id_eq : second.id = rename first.id
  kind : RelatedKind value block first.kind second.kind

structure RelatedBlock
    (rename : ValueId → ValueId) (value : ValueId → ValueId → Prop)
    (block : BlockId → BlockId → Prop) (first second : Block) : Prop where
  instrs : List.Forall₂ (RelatedInstr rename value block) first.instrs
    second.instrs
  term_id : second.term.id = rename first.term.id
  opcode : second.term.opcode = first.term.opcode
  operands : List.Forall₂ value first.term.operands second.term.operands
  succs : List.Forall₂ block first.term.succs second.term.succs

section Composition

variable {rename next : ValueId → ValueId}
variable {value after : ValueId → ValueId → Prop}
variable {block blockAfter : BlockId → BlockId → Prop}

theorem forall₂_comp
    {α β γ : Type} {first : α → β → Prop} {second : β → γ → Prop}
    {result : α → γ → Prop}
    (hcomp : ∀ a b c, first a b → second b c → result a c) :
    ∀ {as : List α} {bs : List β} {cs : List γ}, List.Forall₂ first as bs →
      List.Forall₂ second bs cs → List.Forall₂ result as cs
  | [], _, _, .nil, .nil => .nil
  | _ :: _, _ :: _, _ :: _, .cons hfirst hrest, .cons hsecond hrestSecond =>
      .cons (hcomp _ _ _ hfirst hsecond) (forall₂_comp hcomp hrest hrestSecond)

theorem RelatedKind.comp
    {result : ValueId → ValueId → Prop} {blockResult : BlockId → BlockId → Prop}
    (hvalue : ∀ a b c, value a b → after b c → result a c)
    (hblock : ∀ a b c, block a b → blockAfter b c → blockResult a c)
    {first second third : InstrKind} (hfirst : RelatedKind value block first second)
    (hsecond : RelatedKind after blockAfter second third) :
    RelatedKind result blockResult first third := by
  cases hfirst with
  | barrier =>
      cases hsecond
      exact .barrier
  | phi hincoming =>
      cases hsecond with
      | phi hincomingSecond =>
          refine .phi (forall₂_comp ?_ hincoming hincomingSecond)
          intro a b c hab hbc
          exact ⟨hvalue _ _ _ hab.1 hbc.1, hblock _ _ _ hab.2 hbc.2⟩
  | other opcode hoperands =>
      cases hsecond with
      | other _ hoperandsSecond =>
          exact .other opcode (forall₂_comp hvalue hoperands hoperandsSecond)

theorem RelatedBlock.comp
    {result : ValueId → ValueId → Prop} {blockResult : BlockId → BlockId → Prop}
    (hvalue : ∀ a b c, value a b → after b c → result a c)
    (hblock : ∀ a b c, block a b → blockAfter b c → blockResult a c)
    {first second third : Block}
    (hfirst : RelatedBlock rename value block first second)
    (hsecond : RelatedBlock next after blockAfter second third) :
    RelatedBlock (next ∘ rename) result blockResult first third := by
  constructor
  · refine forall₂_comp ?_ hfirst.instrs hsecond.instrs
    intro a b c hab hbc
    refine ⟨?_, hab.kind.comp hvalue hblock hbc.kind⟩
    rw [hbc.id_eq, hab.id_eq]
    rfl
  · rw [hsecond.term_id, hfirst.term_id]
    rfl
  · exact hsecond.opcode.trans hfirst.opcode
  · exact forall₂_comp hvalue hfirst.operands hsecond.operands
  · exact forall₂_comp hblock hfirst.succs hsecond.succs

theorem RelatedKind.refl
    (hvalue : ∀ a, value a a) (hblock : ∀ a, block a a) :
    ∀ kind, RelatedKind value block kind kind
  | .barrier => .barrier
  | .phi _ =>
      .phi (List.forall₂_same.mpr fun entry _ => ⟨hvalue entry.1, hblock entry.2⟩)
  | .other opcode _ =>
      .other opcode (List.forall₂_same.mpr fun operand _ => hvalue operand)

theorem relatedBlock_renameIds (rename : ValueId → ValueId) (content : Block) :
    RelatedBlock rename Eq Eq content
      (ParallelRegion.renameIds rename content) := by
  constructor
  · refine List.forall₂_map_right_iff.mpr (List.forall₂_same.mpr ?_)
    intro instr _
    exact ⟨rfl, RelatedKind.refl (fun _ => rfl) (fun _ => rfl) _⟩
  · rfl
  · rfl
  · exact List.forall₂_same.mpr fun _ _ => rfl
  · exact List.forall₂_same.mpr fun _ _ => rfl

theorem relatedKind_mapOperands
    {change : ValueId → ValueId} {redirect : BlockId → BlockId}
    (hvalue : ∀ a, value a (change a)) (hblock : ∀ a, block a (redirect a)) :
    ∀ kind, RelatedKind value block kind (kind.mapOperands change redirect)
  | .barrier => .barrier
  | .phi incoming => by
      refine .phi (List.forall₂_map_right_iff.mpr (List.forall₂_same.mpr ?_))
      exact fun entry _ => ⟨hvalue entry.1, hblock entry.2⟩
  | .other opcode operands => by
      refine .other opcode (List.forall₂_map_right_iff.mpr
        (List.forall₂_same.mpr ?_))
      exact fun operand _ => hvalue operand

theorem relatedBlock_mapOperands
    {change : ValueId → ValueId} {redirect : BlockId → BlockId}
    (hvalue : ∀ a, value a (change a)) (hblock : ∀ a, block a (redirect a))
    (content : Block) :
    RelatedBlock id value block content (content.mapOperands change redirect) := by
  constructor
  · refine List.forall₂_map_right_iff.mpr (List.forall₂_same.mpr ?_)
    intro instr _
    exact ⟨rfl, relatedKind_mapOperands hvalue hblock _⟩
  · rfl
  · rfl
  · exact List.forall₂_map_right_iff.mpr
      (List.forall₂_same.mpr fun operand _ => hvalue operand)
  · exact List.forall₂_map_right_iff.mpr
      (List.forall₂_same.mpr fun target _ => hblock target)

theorem RelatedBlock.refl
    (hvalue : ∀ a, value a a) (hblock : ∀ a, block a a) (content : Block) :
    RelatedBlock id value block content content := by
  constructor
  · refine List.forall₂_same.mpr ?_
    intro instr _
    exact ⟨rfl, RelatedKind.refl hvalue hblock _⟩
  · rfl
  · rfl
  · exact List.forall₂_same.mpr fun operand _ => hvalue operand
  · exact List.forall₂_same.mpr fun target _ => hblock target

theorem RelatedBlock.mono
    (hvalue : ∀ a b, value a b → after a b)
    (hblock : ∀ a b, block a b → blockAfter a b) {first second : Block}
    (hrelated : RelatedBlock rename value block first second) :
    RelatedBlock rename after blockAfter first second := by
  have hsame : RelatedBlock id Eq Eq second second :=
    RelatedBlock.refl (fun _ => rfl) (fun _ => rfl) second
  refine hrelated.comp ?_ ?_ hsame
  · rintro a b _ hab rfl
    exact hvalue a b hab
  · rintro a b _ hab rfl
    exact hblock a b hab

theorem map_id_of_related {first second : List Instr}
    (hrelated : List.Forall₂ (RelatedInstr rename value block) first second) :
    second.map Instr.id = first.map fun instr => rename instr.id := by
  induction hrelated with
  | nil => rfl
  | cons hinstr _ ih => rw [List.map_cons, List.map_cons, ih, hinstr.id_eq]

end Composition

end Pocl
