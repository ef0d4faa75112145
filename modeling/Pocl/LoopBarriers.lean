import Mathlib.Data.List.TakeWhile
import Pocl.CanonicalizeBarriersPruning

/-!
# Barriers around loops

A loop with a barrier gets barriers at the end of its preheader, behind the PHI nodes of its
header, at the end of its exiting block and at the end of its latch.  Of several latches only
those get one that the block with the first barrier dominates.  A loop without a barrier must
not follow a barrier directly: if its preheader ends with a barrier, the terminator of the
preheader is split off.

The loops are visited one after another, inner loops first.  A block that is split off belongs to
the loops that the split block belongs to.  All functions are taken as kernels to process, and
the names of blocks are left out.
-/

namespace Pocl.LoopBarriers

open CanonicalizeBarriers

/-- A loop as `LoopInfo` has it. -/
structure Loop where
  header : BlockId
  blocks : List BlockId
  deriving DecidableEq

section LoopInfo

variable (func : Func) (loop : Loop)

/-- The predecessors of the header inside the loop, one for every edge. -/
def latches : List BlockId :=
  (predecessors func loop.header).filter (· ∈ loop.blocks)

/-- `getLoopLatch`, which is null if there are several edges. -/
def getLoopLatch : Option BlockId :=
  match latches func loop with
  | [latch] => some latch
  | _ => none

/-- `getLoopPreheader` -/
def getLoopPreheader : Option BlockId :=
  match (predecessors func loop.header).filter (· ∉ loop.blocks) with
  | [] => none
  | out :: others =>
      if others.all (· = out) ∧ (func.succs out).length = 1 then some out else none

/-- `getExitingBlock`, which is null if there are several. -/
def getExitingBlock : Option BlockId :=
  match loop.blocks.filter fun block => (func.succs block).any (· ∉ loop.blocks) with
  | [block] => some block
  | _ => none

end LoopInfo

/-- `Barrier::Create` before the first instruction that is no PHI node, if there is a PHI node. -/
def createPhiBarrier (func : Func) (block : BlockId) : Func :=
  let instrs := (func.body block).instrs
  let phis := instrs.takeWhile fun instr => instr.kind.isPhi
  if phis = [] then
    func
  else
    { func.setBody block
        { func.body block with
          instrs := phis ++ ⟨func.freshValue, .barrier⟩ ::
            instrs.dropWhile fun instr => instr.kind.isPhi }
      with freshValue := func.freshValue + 1 }

/-- The latches that the block with the first barrier dominates. -/
def addLatchBarriers (func : Func) (latches : List BlockId) (block : BlockId) : Func :=
  latches.foldl
    (fun func latch => if func.dominates block latch then createBarrier func latch else func) func

/-- The barriers at the preheader, the header and the exiting block, which is returned too. -/
def addOuterBarriers (func : Func) (loop : Loop) (preheader : BlockId) :
    Func × Option BlockId :=
  let func := createBarrier func preheader
  let func := createPhiBarrier func loop.header
  let brexit := getExitingBlock func loop
  ((brexit.map (createBarrier func)).getD func, brexit)

/-- The loop with a barrier, which is first found in `block`. -/
def addLoopBarriers (func : Func) (loop : Loop) (block : BlockId) : Option (Func × Bool) := do
  let preheader ← getLoopPreheader func loop
  let (func, brexit) := addOuterBarriers func loop preheader
  match getLoopLatch func loop with
  | some latch =>
      if brexit ≠ some latch then
        some (createBarrier func latch, false)
      else
        some (addLatchBarriers func (latches func loop) block, true)
  | none => some (addLatchBarriers func (latches func loop) block, true)

/-- `addBasicBlockToLoop` for the loops that the block belongs to. -/
def Loop.add (block new : BlockId) (loop : Loop) : Loop :=
  if block ∈ loop.blocks then { loop with blocks := loop.blocks ++ [new] } else loop

structure LoopState where
  func : Func
  loops : List Loop

def processLoop (state : LoopState) (loop : Loop) : Option (LoopState × Bool) :=
  match loop.blocks.find? fun block => (state.func.body block).hasBarrier with
  | some block =>
      (addLoopBarriers state.func loop block).map fun result =>
        ({ state with func := result.1 }, result.2)
  | none => do
      let preheader ← getLoopPreheader state.func loop
      if endsWithBarrier state.func preheader then
        let (func, new) := splitBlock state.func preheader
          (state.func.body preheader).instrs.length
        some (⟨func, state.loops.map (Loop.add preheader new)⟩, true)
      else
        some (state, false)

/-- The visit of the loop with the header. -/
def runOnLoop (state : LoopState × Bool) (header : BlockId) : Option (LoopState × Bool) := do
  let loop ← state.1.loops.find? fun loop => loop.header = header
  let (after, changed) ← processLoop state.1 loop
  some (after, state.2 || changed)

def runOnLoops (state : LoopState) (headers : List BlockId) : Option (LoopState × Bool) :=
  headers.foldlM runOnLoop (state, false)

section Expansions

/-- The second word is the first one with more barriers. -/
inductive WithBarriers : List Token → List Token → Prop
  | nil : WithBarriers [] []
  | keep (token : Token) {word other : List Token} (hrest : WithBarriers word other) :
      WithBarriers (token :: word) (token :: other)
  | barrier {word other : List Token} (hrest : WithBarriers word other) :
      WithBarriers word (.barrier :: other)

theorem WithBarriers.refl (word : List Token) : WithBarriers word word := by
  induction word with
  | nil => exact .nil
  | cons token rest ih => exact .keep token ih

theorem WithBarriers.append {first second other more : List Token}
    (hfirst : WithBarriers first other) (hsecond : WithBarriers second more) :
    WithBarriers (first ++ second) (other ++ more) := by
  induction hfirst with
  | nil => exact hsecond
  | keep token _ ih => exact .keep token ih
  | barrier _ ih => exact .barrier ih

theorem WithBarriers.trans {first second third : List Token}
    (hfirst : WithBarriers first second) (hsecond : WithBarriers second third) :
    WithBarriers first third := by
  induction hsecond generalizing first with
  | nil => exact hfirst
  | keep token _ ih =>
      cases hfirst with
      | keep _ hrest => exact .keep token (ih hrest)
      | barrier hrest => exact .barrier (ih hrest)
  | barrier _ ih => exact .barrier (ih hfirst)

/-- A barrier is inserted. -/
inductive Inserted : List Shape → List Shape → Prop
  | barrier (id : ValueId) (first rest : List Shape) :
      Inserted (first ++ rest) (first ++ barrierShape id :: rest)

/-- Barriers are inserted. -/
abbrev Insertions : List Shape → List Shape → Prop :=
  Relation.ReflTransGen Inserted

/-- The last instruction is a barrier. -/
def EndsWith (shapes : List Shape) : Prop :=
  ∃ shape, shapes.getLast? = some shape ∧ shape.barrier = true

/-- If there are PHI nodes, a barrier follows them. -/
def BarrierAfterPhis (shapes : List Shape) : Prop :=
  ∀ phi, shapes.head? = some phi → phi.phi = true →
    ∃ shape, (shapes.dropWhile Shape.phi).head? = some shape ∧ shape.barrier = true

variable {before after : List Shape}

theorem Insertions.withBarriers (hinsert : Insertions before after) :
    WithBarriers (before.map Shape.token) (after.map Shape.token) := by
  induction hinsert with
  | refl => exact .refl _
  | tail _ hstep ih =>
      cases hstep with
      | barrier id first rest =>
          rw [List.map_append] at ih ⊢
          exact ih.trans ((WithBarriers.refl _).append (.barrier (.refl _)))

theorem Insertions.mem (hinsert : Insertions before after) {shape : Shape}
    (hshape : shape ∈ before) : shape ∈ after := by
  induction hinsert with
  | refl => exact hshape
  | tail _ hstep ih =>
      cases hstep with
      | barrier id first rest =>
          rw [List.mem_append] at ih ⊢
          exact ih.imp_right (List.mem_cons_of_mem _)

theorem Insertions.endsWith (hinsert : Insertions before after) (hends : EndsWith before) :
    EndsWith after := by
  induction hinsert with
  | refl => exact hends
  | tail _ hstep ih =>
      cases hstep with
      | barrier id first rest =>
          obtain ⟨shape, hlast, hbarrier⟩ := ih
          cases rest with
          | nil => exact ⟨barrierShape id, by simp, rfl⟩
          | cons head rest => exact ⟨shape, by simpa using hlast, hbarrier⟩

theorem Insertions.barrierAfterPhis (hinsert : Insertions before after)
    (hphis : BarrierAfterPhis before) : BarrierAfterPhis after := by
  induction hinsert with
  | refl => exact hphis
  | tail _ hstep ih =>
      cases hstep with
      | barrier id first rest =>
          intro phi hhead hphi
          cases first with
          | nil =>
              obtain rfl := Option.some.inj hhead
              cases hphi
          | cons head first =>
              obtain ⟨shape, hshape, hbarrier⟩ := ih phi hhead hphi
              rw [List.dropWhile_append] at hshape ⊢
              split
              · exact ⟨barrierShape id, rfl, rfl⟩
              · rename_i hfirst
                rw [if_neg hfirst] at hshape
                refine ⟨shape, ?_, hbarrier⟩
                cases hdrop : (head :: first).dropWhile Shape.phi with
                | nil => simp [hdrop] at hfirst
                | cons other others =>
                    rw [hdrop] at hshape
                    exact hshape

theorem insertions_append (id : ValueId) (shapes : List Shape) :
    Insertions shapes (shapes ++ [barrierShape id]) := by
  have hinserted := Inserted.barrier id shapes []
  rw [List.append_nil] at hinserted
  exact .single hinserted

theorem insertions_afterPhis (id : ValueId) (shapes : List Shape) :
    Insertions shapes
      (shapes.takeWhile Shape.phi ++ barrierShape id :: shapes.dropWhile Shape.phi) := by
  have hinserted :=
    Inserted.barrier id (shapes.takeWhile Shape.phi) (shapes.dropWhile Shape.phi)
  rw [List.takeWhile_append_dropWhile] at hinserted
  exact .single hinserted

end Expansions

section Additions

/-- Barriers are added to blocks, and nothing else. -/
structure AddsBarriers (func after : Func) : Prop where
  order_eq : after.order = func.order
  freshBlock_eq : after.freshBlock = func.freshBlock
  term_eq : ∀ block, (after.body block).term = (func.body block).term
  insertions : ∀ block, Insertions (shapes func block) (shapes after block)

namespace AddsBarriers

variable {func after : Func}

theorem refl (func : Func) : AddsBarriers func func :=
  ⟨rfl, rfl, fun _ => rfl, fun _ => .refl⟩

theorem trans {first second third : Func} (hfirst : AddsBarriers first second)
    (hsecond : AddsBarriers second third) : AddsBarriers first third where
  order_eq := hsecond.order_eq.trans hfirst.order_eq
  freshBlock_eq := hsecond.freshBlock_eq.trans hfirst.freshBlock_eq
  term_eq block := (hsecond.term_eq block).trans (hfirst.term_eq block)
  insertions block := (hfirst.insertions block).trans (hsecond.insertions block)

theorem setBlock (func : Func) (block : BlockId) (instrs : List Instr) (fresh : ValueId)
    (hinsert : Insertions (shapes func block) (instrs.map shapeOf)) :
    AddsBarriers func
      { func.setBody block { func.body block with instrs } with freshValue := fresh } where
  order_eq := rfl
  freshBlock_eq := rfl
  term_eq other := by
    by_cases hother : other = block
    · rw [hother]
      simp [Func.setBody]
    · simp [Func.setBody, Function.update_of_ne hother]
  insertions other := by
    by_cases hother : other = block
    · rw [hother]
      simpa [shapes, Func.setBody] using hinsert
    · simp [shapes, Func.setBody, Function.update_of_ne hother, Relation.ReflTransGen.refl]

theorem createBarrier (func : Func) (block : BlockId) :
    AddsBarriers func (createBarrier func block) := by
  unfold CanonicalizeBarriers.createBarrier
  split
  · exact refl func
  · apply setBlock
    rw [List.map_append]
    exact insertions_append func.freshValue _

theorem createPhiBarrier (func : Func) (block : BlockId) :
    AddsBarriers func (createPhiBarrier func block) := by
  unfold LoopBarriers.createPhiBarrier
  dsimp only
  split
  · exact refl func
  · apply setBlock
    rw [List.map_append, List.map_cons]
    have hinsert := insertions_afterPhis func.freshValue (shapes func block)
    rwa [shapes, List.takeWhile_map, List.dropWhile_map] at hinsert

theorem addLatchBarriers (func : Func) (latches : List BlockId) (block : BlockId) :
    AddsBarriers func (addLatchBarriers func latches block) := by
  induction latches generalizing func with
  | nil => exact refl func
  | cons latch rest ih =>
      rw [LoopBarriers.addLatchBarriers, List.foldl_cons]
      split
      · exact (createBarrier func latch).trans (ih _)
      · exact ih func

theorem succs_eq (hadds : AddsBarriers func after) : after.succs = func.succs :=
  funext fun block => congrArg Terminator.succs (hadds.term_eq block)

theorem entry_eq (hadds : AddsBarriers func after) : after.entry = func.entry := by
  rw [Func.entry, hadds.order_eq, Func.entry]

theorem graph_eq (hadds : AddsBarriers func after) : after.graph = func.graph := by
  rw [Func.graph, Func.graph, hadds.entry_eq, hadds.succs_eq]

theorem predecessors_eq (hadds : AddsBarriers func after) :
    predecessors after = predecessors func := by
  funext block
  simp only [predecessors, hadds.order_eq, hadds.succs_eq]

theorem dominates_eq (hadds : AddsBarriers func after) : after.dominates = func.dominates := by
  funext dominator block
  rw [Func.dominates, Func.dominates, hadds.graph_eq, hadds.order_eq]

theorem hasBlocks (hadds : AddsBarriers func after) (hblocks : func.HasBlocks) :
    after.HasBlocks where
  nonempty := by
    rw [hadds.order_eq]
    exact hblocks.nonempty
  nodup := by
    rw [hadds.order_eq]
    exact hblocks.nodup
  bound := by
    rw [hadds.order_eq, hadds.freshBlock_eq]
    exact hblocks.bound
  succs_mem := by
    rw [hadds.order_eq, hadds.succs_eq]
    exact hblocks.succs_mem

theorem endsWithBarrier (hadds : AddsBarriers func after) {block : BlockId}
    (hends : endsWithBarrier func block = true) : endsWithBarrier after block = true := by
  rw [endsWithBarrier_iff] at hends ⊢
  exact (hadds.insertions block).endsWith hends

theorem hasBarrier (hadds : AddsBarriers func after) {block : BlockId}
    (hbarrier : (func.body block).hasBarrier = true) :
    (after.body block).hasBarrier = true := by
  rw [hasBarrier_iff] at hbarrier ⊢
  obtain ⟨shape, hshape, hbarrier⟩ := hbarrier
  exact ⟨shape, (hadds.insertions block).mem hshape, hbarrier⟩

theorem barrierAfterPhis (hadds : AddsBarriers func after) {block : BlockId}
    (hphis : BarrierAfterPhis (shapes func block)) : BarrierAfterPhis (shapes after block) :=
  (hadds.insertions block).barrierAfterPhis hphis

end AddsBarriers

theorem createBarrier_endsWithBarrier (func : Func) (block : BlockId) :
    endsWithBarrier (createBarrier func block) block = true := by
  unfold createBarrier
  split
  · assumption
  · simp [endsWithBarrier, Func.setBody, InstrKind.isBarrier]

theorem createPhiBarrier_barrierAfterPhis (func : Func) (block : BlockId) :
    BarrierAfterPhis (shapes (createPhiBarrier func block) block) := by
  intro phi hhead hphi
  unfold createPhiBarrier at hhead ⊢
  dsimp only at hhead ⊢
  split
  · rename_i hphis
    rw [if_pos hphis] at hhead
    cases hinstrs : (func.body block).instrs with
    | nil => simp [shapes, hinstrs] at hhead
    | cons instr rest =>
        have hinstr : shapeOf instr = phi := by simpa [shapes, hinstrs] using hhead
        rw [← hinstr] at hphi
        simp [hinstrs, show instr.kind.isPhi = true from hphi] at hphis
  · refine ⟨barrierShape func.freshValue, ?_, rfl⟩
    have hphis : ∀ shape ∈ ((func.body block).instrs.takeWhile fun instr =>
        instr.kind.isPhi).map shapeOf, shape.phi = true := by
      intro shape hshape
      obtain ⟨instr, hinstr, rfl⟩ := List.mem_map.mp hshape
      exact List.mem_takeWhile_imp (p := fun instr : Instr => instr.kind.isPhi) hinstr
    simp only [shapes, Func.setBody, Function.update_self, List.map_append]
    rw [List.dropWhile_append_of_pos hphis]
    rfl

end Additions

section Preparation

/-- The barriers of a loop are in place, if its first barrier was found in the given block.  Of
several latches only those get one that this block dominates. -/
structure Prepared (func : Func) (loop : Loop) (first : BlockId) : Prop where
  preheader : ∃ preheader, getLoopPreheader func loop = some preheader ∧
    endsWithBarrier func preheader = true
  header : BarrierAfterPhis (shapes func loop.header)
  exiting : ∀ block, getExitingBlock func loop = some block → endsWithBarrier func block = true
  latch : ∀ block, getLoopLatch func loop = some block → endsWithBarrier func block = true
  first_mem : first ∈ loop.blocks
  first_barrier : (func.body first).hasBarrier = true
  latches : ∀ latch ∈ latches func loop, func.dominates first latch = true →
    endsWithBarrier func latch = true

variable {func after : Func} {loop : Loop} {block : BlockId}

namespace AddsBarriers

variable (hadds : AddsBarriers func after) (loop : Loop)

include hadds

theorem latches_eq : latches after loop = latches func loop := by
  rw [latches, latches, hadds.predecessors_eq]

theorem getLoopLatch_eq : getLoopLatch after loop = getLoopLatch func loop := by
  rw [getLoopLatch, getLoopLatch, hadds.latches_eq]

theorem getLoopPreheader_eq : getLoopPreheader after loop = getLoopPreheader func loop := by
  rw [getLoopPreheader, getLoopPreheader, hadds.predecessors_eq, hadds.succs_eq]

theorem getExitingBlock_eq : getExitingBlock after loop = getExitingBlock func loop := by
  rw [getExitingBlock, getExitingBlock, hadds.succs_eq]

end AddsBarriers

theorem Prepared.adds (hprepared : Prepared func loop block) (hadds : AddsBarriers func after) :
    Prepared after loop block where
  preheader := by
    obtain ⟨preheader, hpreheader, hends⟩ := hprepared.preheader
    exact ⟨preheader, (hadds.getLoopPreheader_eq loop).trans hpreheader,
      hadds.endsWithBarrier hends⟩
  header := hadds.barrierAfterPhis hprepared.header
  exiting block hblock := by
    rw [hadds.getExitingBlock_eq] at hblock
    exact hadds.endsWithBarrier (hprepared.exiting block hblock)
  latch block hblock := by
    rw [hadds.getLoopLatch_eq] at hblock
    exact hadds.endsWithBarrier (hprepared.latch block hblock)
  first_mem := hprepared.first_mem
  first_barrier := hadds.hasBarrier hprepared.first_barrier
  latches latch hlatch hdominates := by
    rw [hadds.latches_eq] at hlatch
    rw [hadds.dominates_eq] at hdominates
    exact hadds.endsWithBarrier (hprepared.latches latch hlatch hdominates)

theorem addLatchBarriers_endsWithBarrier {latches : List BlockId} {latch : BlockId}
    (hlatch : latch ∈ latches) (hdominates : func.dominates block latch = true) :
    endsWithBarrier (addLatchBarriers func latches block) latch = true := by
  induction latches generalizing func with
  | nil => cases hlatch
  | cons head rest ih =>
      rw [addLatchBarriers, List.foldl_cons]
      rcases List.mem_cons.mp hlatch with rfl | hrest
      · rw [if_pos hdominates]
        apply (AddsBarriers.addLatchBarriers _ rest block).endsWithBarrier
        exact createBarrier_endsWithBarrier func latch
      · apply ih hrest
        split
        · rwa [(AddsBarriers.createBarrier func head).dominates_eq]
        · exact hdominates

theorem mem_latches_of_getLoopLatch {latch : BlockId}
    (hlatch : getLoopLatch func loop = some latch) : latches func loop = [latch] := by
  unfold getLoopLatch at hlatch
  split at hlatch
  · rename_i hsingle
    rw [hsingle, Option.some.inj hlatch]
  · cases hlatch

/-- What the barriers before the latches achieve. -/
structure OuterPrepared (func : Func) (loop : Loop) (preheader : BlockId)
    (state : Func × Option BlockId) : Prop where
  adds : AddsBarriers func state.1
  preheader : endsWithBarrier state.1 preheader = true
  header : BarrierAfterPhis (shapes state.1 loop.header)
  exiting_eq : state.2 = getExitingBlock func loop
  exiting : ∀ block, state.2 = some block → endsWithBarrier state.1 block = true

theorem addOuterBarriers_prepared (func : Func) (loop : Loop) (preheader : BlockId) :
    OuterPrepared func loop preheader (addOuterBarriers func loop preheader) := by
  have hfirst := AddsBarriers.createBarrier func preheader
  have hsecond := AddsBarriers.createPhiBarrier (createBarrier func preheader) loop.header
  have hends := hsecond.endsWithBarrier (createBarrier_endsWithBarrier func preheader)
  have hphis := createPhiBarrier_barrierAfterPhis (createBarrier func preheader) loop.header
  have hexiting := (hfirst.trans hsecond).getExitingBlock_eq loop
  unfold addOuterBarriers
  dsimp only
  generalize createPhiBarrier _ loop.header = middle at hsecond hends hphis hexiting ⊢
  cases hbrexit : getExitingBlock middle loop with
  | none =>
      rw [hbrexit] at hexiting
      exact ⟨hfirst.trans hsecond, hends, hphis, hexiting, fun block heq => by cases heq⟩
  | some brexit =>
      rw [hbrexit] at hexiting
      have hthird := AddsBarriers.createBarrier middle brexit
      refine ⟨(hfirst.trans hsecond).trans hthird, hthird.endsWithBarrier hends,
        hthird.barrierAfterPhis hphis, hexiting, fun block heq => ?_⟩
      obtain rfl := Option.some.inj heq
      exact createBarrier_endsWithBarrier middle brexit

/-- The latches of the loop get their barriers last. -/
theorem OuterPrepared.prepared {preheader : BlockId} {state : Func × Option BlockId}
    (houter : OuterPrepared func loop preheader state)
    (hpreheader : getLoopPreheader func loop = some preheader) (hblock : block ∈ loop.blocks)
    (hbarrier : (func.body block).hasBarrier = true) (hadds : AddsBarriers state.1 after)
    (hlatches : ∀ latch ∈ latches func loop,
      getLoopLatch func loop = some latch ∨ func.dominates block latch = true →
        endsWithBarrier after latch = true) : Prepared after loop block := by
  have hall := houter.adds.trans hadds
  constructor
  · exact ⟨preheader, (hall.getLoopPreheader_eq loop).trans hpreheader,
      hadds.endsWithBarrier houter.preheader⟩
  · exact hadds.barrierAfterPhis houter.header
  · intro brexit hbrexit
    rw [hall.getExitingBlock_eq, ← houter.exiting_eq] at hbrexit
    exact hadds.endsWithBarrier (houter.exiting brexit hbrexit)
  · intro latch hlatch
    rw [hall.getLoopLatch_eq] at hlatch
    refine hlatches latch ?_ (.inl hlatch)
    rw [mem_latches_of_getLoopLatch hlatch]
    exact List.mem_singleton_self latch
  · exact hblock
  · exact hall.hasBarrier hbarrier
  · intro latch hlatch hdominates
    rw [hall.latches_eq] at hlatch
    rw [hall.dominates_eq] at hdominates
    exact hlatches latch hlatch (.inr hdominates)

theorem addLoopBarriers_prepared {changed : Bool} (hblock : block ∈ loop.blocks)
    (hbarrier : (func.body block).hasBarrier = true)
    (hadd : addLoopBarriers func loop block = some (after, changed)) :
    AddsBarriers func after ∧ Prepared after loop block := by
  unfold addLoopBarriers at hadd
  obtain ⟨preheader, hpreheader, hadd⟩ := Option.bind_eq_some_iff.mp hadd
  have houter := addOuterBarriers_prepared func loop preheader
  generalize addOuterBarriers func loop preheader = state at houter hadd
  obtain ⟨middle, brexit⟩ := state
  dsimp only at hadd
  have hlatch := houter.adds.getLoopLatch_eq loop
  dsimp only at hlatch
  have hdominated : ∀ latch ∈ latches func loop, func.dominates block latch = true →
      endsWithBarrier (addLatchBarriers middle (latches middle loop) block) latch = true := by
    intro latch hmem hdominates
    apply addLatchBarriers_endsWithBarrier
    · rwa [houter.adds.latches_eq]
    · rwa [houter.adds.dominates_eq]
  have hadds := AddsBarriers.addLatchBarriers middle (latches middle loop) block
  split at hadd
  · rename_i latch hlatchMiddle
    rw [hlatchMiddle] at hlatch
    have honly := mem_latches_of_getLoopLatch hlatch.symm
    split at hadd
    · obtain ⟨rfl, rfl⟩ := Prod.mk.inj (Option.some.inj hadd)
      have hadds := AddsBarriers.createBarrier middle latch
      refine ⟨houter.adds.trans hadds, houter.prepared hpreheader hblock hbarrier hadds ?_⟩
      intro other hother _
      rw [honly, List.mem_singleton] at hother
      rw [hother]
      exact createBarrier_endsWithBarrier middle latch
    · rename_i hbrexit
      obtain ⟨rfl, rfl⟩ := Prod.mk.inj (Option.some.inj hadd)
      refine ⟨houter.adds.trans hadds, houter.prepared hpreheader hblock hbarrier hadds ?_⟩
      intro other hother _
      rw [honly, List.mem_singleton] at hother
      rw [hother]
      exact hadds.endsWithBarrier (houter.exiting latch (not_not.mp hbrexit))
  · rename_i hnone
    obtain ⟨rfl, rfl⟩ := Prod.mk.inj (Option.some.inj hadd)
    refine ⟨houter.adds.trans hadds, houter.prepared hpreheader hblock hbarrier hadds ?_⟩
    rintro other hother (hother' | hdominates)
    · rw [hnone, hother'] at hlatch
      cases hlatch
    · exact hdominated other hother hdominates

theorem exists_addLoopBarriers {preheader : BlockId}
    (hpreheader : getLoopPreheader func loop = some preheader) :
    ∃ after changed, addLoopBarriers func loop block = some (after, changed) := by
  simp only [addLoopBarriers, hpreheader, Option.bind_eq_bind, Option.bind_some]
  split
  · split
    · exact ⟨_, _, rfl⟩
    · exact ⟨_, _, rfl⟩
  · exact ⟨_, _, rfl⟩

end Preparation

section Code

/-- The runs differ only in the barriers that are passed, up to a run that stops earlier. -/
structure SameCode (func after : Func) : Prop where
  forward : ∀ word, Runs func func.entry word →
    ∃ other, Runs after after.entry other ∧ WithBarriers word other
  backward : ∀ other, Runs after after.entry other →
    ∃ word longer, Runs func func.entry word ∧ WithBarriers word longer ∧ other <+: longer

theorem SameCode.refl (func : Func) : SameCode func func where
  forward word hruns := ⟨word, hruns, .refl word⟩
  backward word hruns := ⟨word, word, hruns, .refl word, List.prefix_refl word⟩

theorem SameCode.trans {first second third : Func} (hfirst : SameCode first second)
    (hsecond : SameCode second third) : SameCode first third where
  forward word hruns := by
    obtain ⟨middle, hmiddle, hword⟩ := hfirst.forward word hruns
    obtain ⟨other, hother, hmore⟩ := hsecond.forward middle hmiddle
    exact ⟨other, hother, hword.trans hmore⟩
  backward other hruns := by
    obtain ⟨middle, longer, hmiddle, hlonger, hother⟩ := hsecond.backward other hruns
    obtain ⟨word, before, hword, hbefore, rest, rfl⟩ := hfirst.backward middle hmiddle
    refine ⟨word, longer ++ rest, hword, hbefore.trans (hlonger.append (.refl rest)), ?_⟩
    exact hother.trans (List.prefix_append longer rest)

variable {func after : Func}

theorem AddsBarriers.blockWord (hadds : AddsBarriers func after) (block : BlockId) :
    WithBarriers (blockWord func block) (blockWord after block) :=
  (hadds.insertions block).withBarriers

theorem AddsBarriers.runs_forward (hadds : AddsBarriers func after) {block : BlockId}
    {word : List Token} (hruns : Runs func block word) :
    ∃ other, Runs after block other ∧ WithBarriers word other := by
  induction hruns with
  | stop block => exact ⟨[], .stop block, .nil⟩
  | leave block hexit =>
      refine ⟨_, .leave block (hadds.succs_eq ▸ hexit), ?_⟩
      rw [hadds.term_eq]
      exact (hadds.blockWord block).append (.refl _)
  | go block index target rest htarget _ ih =>
      obtain ⟨other, hother, hrest⟩ := ih
      refine ⟨_, .go block index target other (hadds.succs_eq ▸ htarget) hother, ?_⟩
      rw [hadds.term_eq]
      exact (hadds.blockWord block).append ((WithBarriers.refl _).append hrest)

theorem AddsBarriers.runs_backward (hadds : AddsBarriers func after) {block : BlockId}
    {other : List Token} (hruns : Runs after block other) :
    ∃ word, Runs func block word ∧ WithBarriers word other := by
  induction hruns with
  | stop block => exact ⟨[], .stop block, .nil⟩
  | leave block hexit =>
      refine ⟨_, .leave block (hadds.succs_eq ▸ hexit), ?_⟩
      rw [hadds.term_eq]
      exact (hadds.blockWord block).append (.refl _)
  | go block index target rest htarget _ ih =>
      obtain ⟨word, hword, hrest⟩ := ih
      refine ⟨_, .go block index target word (hadds.succs_eq ▸ htarget) hword, ?_⟩
      rw [hadds.term_eq]
      exact (hadds.blockWord block).append ((WithBarriers.refl _).append hrest)

theorem AddsBarriers.sameCode (hadds : AddsBarriers func after) : SameCode func after where
  forward word hruns := by
    rw [hadds.entry_eq]
    exact hadds.runs_forward hruns
  backward other hruns := by
    rw [hadds.entry_eq] at hruns
    obtain ⟨word, hword, hmore⟩ := hadds.runs_backward hruns
    exact ⟨word, other, hword, hmore, List.prefix_refl other⟩

theorem sameCode_of_splits {block new : BlockId} {index : ℕ}
    (hsplits : Splits func block index after new) (hblocks : func.HasBlocks)
    (hblock : block ∈ func.order) : SameCode func after where
  forward word hruns := by
    rw [hsplits.entry_eq hblocks]
    exact ⟨word, hsplits.runs_forward hblocks hruns hblocks.entry_mem, .refl word⟩
  backward other hruns := by
    rw [hsplits.entry_eq hblocks] at hruns
    obtain ⟨word, hword, hbegins⟩ :=
      (hsplits.runs_backward hblocks hblock hruns).1 hblocks.entry_mem
    exact ⟨word, word, hword, .refl word, hbegins⟩

end Code

end Pocl.LoopBarriers
