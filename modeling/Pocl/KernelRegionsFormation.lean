import Mathlib.Algebra.BigOperators.Group.Finset.Basic
import Pocl.AcyclicRelations
import Pocl.KernelRegions

/-!
# The region before a barrier

The search upwards from a barrier halts unless barriers follow each other in a cycle.  It
collects the blocks that come before the barrier: those with a path to it, or to a barrier
from which only barriers lead to it, that goes through no other barrier.
-/

namespace Pocl.KernelRegions

open ExceptPrograms FuelledRun

/-- The blocks that come before `b` without a barrier in between. -/
inductive Before (preds : BlockId → List BlockId) (barriers : Set BlockId) :
    BlockId → BlockId → Prop
  | pred {b source : BlockId} :
      source ∈ preds b → source ∉ barriers → Before preds barriers b source
  | chain {b source block : BlockId} :
      source ∈ preds b → source ∈ barriers → b ∈ barriers →
        Before preds barriers source block → Before preds barriers b block
  | step {b target source : BlockId} :
      Before preds barriers b target → source ∈ preds target → source ∉ barriers →
        Before preds barriers b source

/-- The blocks that `add_predecessors` pushes. -/
inductive Pushed (preds : BlockId → List BlockId) (barriers : Set BlockId) :
    BlockId → BlockId → Prop
  | pred {b source : BlockId} :
      source ∈ preds b → ¬ (source ∈ barriers ∧ b ∈ barriers) →
        Pushed preds barriers b source
  | chain {b source block : BlockId} :
      source ∈ preds b → source ∈ barriers → b ∈ barriers →
        Pushed preds barriers source block → Pushed preds barriers b block

/-- A barrier block directly before another one. -/
def BarrierEdge
    (preds : BlockId → List BlockId) (barriers : Set BlockId) (b source : BlockId) : Prop :=
  source ∈ preds b ∧ source ∈ barriers ∧ b ∈ barriers

def barriers (func : Func) : Set BlockId :=
  {block | CanonicalizeBarriers.isBarrierBlock true func block = some true}

variable {preds : BlockId → List BlockId} {func : Func} {fuel : ℕ}
  {b block source : BlockId}

theorem isaBarrierBlock_eq_ok {flag : Bool} (hisa : isaBarrierBlock func block = .ok flag) :
    flag = true ↔ block ∈ barriers func := by
  rw [isaBarrierBlock, asserted_eq_ok] at hisa
  simp [barriers, hisa]

section Predecessors

theorem addPredecessor_adds
    {recurse : BlockId → List BlockId → FuelledRun (List BlockId)}
    {added : BlockId → BlockId → Prop}
    (hrecurse : ∀ source v v', recurse source v = .ok v' →
      ∀ x, x ∈ v' ↔ x ∈ v ∨ added source x)
    {v v' : List BlockId} (hstep : addPredecessor recurse func b v source = .ok v')
    (x : BlockId) :
    x ∈ v' ↔ x ∈ v ∨
      (source ∈ barriers func ∧ b ∈ barriers func ∧ added source x ∨
        ¬ (source ∈ barriers func ∧ b ∈ barriers func) ∧ x = source) := by
  obtain ⟨isSource, hsource, hstep⟩ := bind_eq_ok.mp hstep
  have hsource := isaBarrierBlock_eq_ok hsource
  have hpush : ∀ v' : List BlockId, pure (source :: v) = (.ok v' : FuelledRun _) →
      (x ∈ v' ↔ x ∈ v ∨ x = source) := by
    intro v' heq
    obtain rfl := Except.ok.inj heq
    rw [List.mem_cons, or_comm]
  cases isSource with
  | false =>
      have hnot : source ∉ barriers func := by simpa using hsource
      simpa [hnot] using hpush v' hstep
  | true =>
      have hmem : source ∈ barriers func := by simpa using hsource
      obtain ⟨isTarget, htarget, hstep⟩ := bind_eq_ok.mp hstep
      have htarget := isaBarrierBlock_eq_ok htarget
      cases isTarget with
      | false =>
          have hnot : b ∉ barriers func := by simpa using htarget
          simpa [hnot] using hpush v' hstep
      | true =>
          have hb : b ∈ barriers func := by simpa using htarget
          simpa [hmem, hb] using hrecurse source v v' hstep x

theorem pushed_iff :
    Pushed preds (barriers func) b block ↔ ∃ source ∈ preds b,
      source ∈ barriers func ∧ b ∈ barriers func ∧
          Pushed preds (barriers func) source block ∨
        ¬ (source ∈ barriers func ∧ b ∈ barriers func) ∧ block = source := by
  constructor
  · intro hpushed
    cases hpushed with
    | pred hsource hnot => exact ⟨block, hsource, .inr ⟨hnot, rfl⟩⟩
    | chain hsource hbarrier hb hpushed =>
        exact ⟨_, hsource, .inl ⟨hbarrier, hb, hpushed⟩⟩
  · rintro ⟨source, hsource, ⟨hbarrier, hb, hpushed⟩ | ⟨hnot, rfl⟩⟩
    · exact .chain hsource hbarrier hb hpushed
    · exact .pred hsource hnot

theorem addPredecessors_adds
    {v v' : List BlockId} (hrun : addPredecessors preds func fuel b v = .ok v')
    (x : BlockId) : x ∈ v' ↔ x ∈ v ∨ Pushed preds (barriers func) b x := by
  induction fuel generalizing b v v' x with
  | zero => cases hrun
  | succ fuel ih =>
      rw [addPredecessors] at hrun
      rw [foldlM_adds (fun v x => x ∈ v) (fun source _ v v' hstep =>
        addPredecessor_adds (fun _ _ _ hrun x => ih hrun x) hstep) hrun x, pushed_iff]

theorem addPredecessor_of_notMem
    {recurse : BlockId → List BlockId → FuelledRun (List BlockId)} {v v' : List BlockId}
    (hb : b ∉ barriers func) (hstep : addPredecessor recurse func b v source = .ok v') :
    v' = source :: v := by
  obtain ⟨isSource, -, hstep⟩ := bind_eq_ok.mp hstep
  cases isSource with
  | false => exact (Except.ok.inj hstep).symm
  | true =>
      obtain ⟨isTarget, htarget, hstep⟩ := bind_eq_ok.mp hstep
      cases isTarget with
      | false => exact (Except.ok.inj hstep).symm
      | true => exact absurd ((isaBarrierBlock_eq_ok htarget).mp rfl) hb

theorem addPredecessors_of_notMem
    {v v' : List BlockId} (hb : b ∉ barriers func)
    (hrun : addPredecessors preds func fuel b v = .ok v') : v' = (preds b).reverse ++ v := by
  cases fuel with
  | zero => cases hrun
  | succ fuel =>
      rw [addPredecessors] at hrun
      rw [foldlM_eq_foldl (fun source _ v v' hstep => addPredecessor_of_notMem hb hstep) hrun]
      exact List.foldl_flip_cons_eq_append'

theorem addPredecessor_halts
    {recurse : BlockId → List BlockId → FuelledRun (List BlockId)} {v : List BlockId}
    (hrecurse : source ∈ barriers func → b ∈ barriers func → (recurse source v).Halts) :
    (addPredecessor recurse func b v source).Halts := by
  refine Halts.bind (halts_asserted _) fun isSource hsource => ?_
  cases isSource with
  | false => exact halts_ok _
  | true =>
      refine Halts.bind (halts_asserted _) fun isTarget htarget => ?_
      cases isTarget with
      | false => exact halts_ok _
      | true =>
          exact hrecurse ((isaBarrierBlock_eq_ok hsource).mp rfl)
            ((isaBarrierBlock_eq_ok htarget).mp rfl)

/-- No barriers follow each other in a cycle. -/
def NoBarrierCycle (preds : BlockId → List BlockId) (func : Func) : Prop :=
  Acyclic (BarrierEdge preds (barriers func))

theorem addPredecessors_halts
    {nodes : Finset BlockId} (hacyclic : NoBarrierCycle preds func)
    (hnodes : ∀ b, ∀ source ∈ preds b, source ∈ nodes)
    (hfuel : rank (BarrierEdge preds (barriers func)) nodes b < fuel) (v : List BlockId) :
    (addPredecessors preds func fuel b v).Halts := by
  induction fuel generalizing b v with
  | zero => exact absurd hfuel (Nat.not_lt_zero _)
  | succ fuel ih =>
      rw [addPredecessors]
      refine halts_foldlM (fun source hsource v => addPredecessor_halts fun hbarrier hb => ?_) v
      have hlt := hacyclic.rank_lt (hnodes b source hsource) ⟨hsource, hbarrier, hb⟩
      exact ih (by omega) v

end Predecessors

section Collection

variable {current : BlockId} {pending : List BlockId} {collected result : Collected}

def Collected.withBarrier (collected : Collected) (current : BlockId) : Collected :=
  { collected with
    regionEntryBarrier := collected.regionEntryBarrier.or (some current) }

def Collected.withBlock (collected : Collected) (current : BlockId) : Collected :=
  { collected with blocksInRegion := current :: collected.blocksInRegion }

/-- What happens to the block at the back of the pending ones. -/
theorem collectBlocks_cons
    (hrun : collectBlocks preds func (fuel + 1) (current :: pending) collected = .ok result) :
    (current ∈ collected.blocksInRegion ∧
      collectBlocks preds func fuel pending collected = .ok result) ∨
    (current ∈ barriers func ∧
      collectBlocks preds func fuel pending (collected.withBarrier current) = .ok result) ∨
    (current ∉ collected.blocksInRegion ∧ current ∉ barriers func ∧
      (func.body current).hasBarrier = false ∧
      collectBlocks preds func fuel ((preds current).reverse ++ pending)
        (collected.withBlock current) = .ok result) := by
  rw [collectBlocks] at hrun
  by_cases hmem : current ∈ collected.blocksInRegion
  · rw [if_pos hmem] at hrun
    exact .inl ⟨hmem, hrun⟩
  · rw [if_neg hmem] at hrun
    obtain ⟨isBarrier, hisa, hrun⟩ := bind_eq_ok.mp hrun
    have hisa := isaBarrierBlock_eq_ok hisa
    cases isBarrier with
    | true => exact .inr (.inl ⟨hisa.mp rfl, hrun⟩)
    | false =>
        have hnot : current ∉ barriers func := by simpa using hisa
        obtain ⟨_, hverify, hrun⟩ := bind_eq_ok.mp hrun
        obtain ⟨pending', hpush, hrun⟩ := bind_eq_ok.mp hrun
        rw [addPredecessors_of_notMem hnot hpush] at hrun
        rw [require_eq_ok, verifyNoBarriers, Bool.not_eq_true'] at hverify
        exact .inr (.inr ⟨hmem, hnot, hverify, hrun⟩)

/-- What holds whenever the search looks at the pending blocks.  It may collect the blocks in
`allowed`, and it began with the blocks in `start`. -/
structure Collecting
    (preds : BlockId → List BlockId) (func : Func) (allowed start : Set BlockId)
    (pending : List BlockId) (collected : Collected) : Prop where
  mem_allowed : ∀ x ∈ collected.blocksInRegion, x ∈ allowed
  plain : ∀ x ∈ collected.blocksInRegion,
    x ∉ barriers func ∧ (func.body x).hasBarrier = false
  pending_allowed : ∀ x ∈ pending, x ∉ barriers func → x ∈ allowed
  closed : ∀ x ∈ collected.blocksInRegion, ∀ source ∈ preds x,
    source ∈ collected.blocksInRegion ∨ source ∈ barriers func ∨ source ∈ pending
  started : ∀ x ∈ start,
    x ∈ collected.blocksInRegion ∨ x ∈ barriers func ∨ x ∈ pending
  pending_barrier : ∀ x ∈ pending, x ∈ barriers func →
    ∃ block ∈ collected.blocksInRegion, x ∈ preds block
  entry_barrier : ∀ x, collected.regionEntryBarrier = some x →
    x ∈ barriers func ∧ ∃ block ∈ collected.blocksInRegion, x ∈ preds block
  has_entry : ∀ x ∈ collected.blocksInRegion, ∀ source ∈ preds x, source ∈ barriers func →
    source ∈ pending ∨ collected.regionEntryBarrier.isSome

variable {allowed start : Set BlockId}

theorem settled_of_cons
    {blocks : List BlockId} {x : BlockId}
    (hcurrent : current ∈ blocks ∨ current ∈ barriers func)
    (hx : x ∈ blocks ∨ x ∈ barriers func ∨ x ∈ current :: pending) :
    x ∈ blocks ∨ x ∈ barriers func ∨ x ∈ pending := by
  rcases hx with hin | hbarrier | hpending
  · exact .inl hin
  · exact .inr (.inl hbarrier)
  · rcases List.mem_cons.mp hpending with rfl | hpending
    · exact hcurrent.imp_right .inl
    · exact .inr (.inr hpending)

theorem settled_withBlock
    {blocks : List BlockId} {x : BlockId}
    (hx : x ∈ blocks ∨ x ∈ barriers func ∨ x ∈ current :: pending) :
    x ∈ current :: blocks ∨ x ∈ barriers func ∨
      x ∈ (preds current).reverse ++ pending := by
  rcases hx with hin | hbarrier | hpending
  · exact .inl (List.mem_cons_of_mem current hin)
  · exact .inr (.inl hbarrier)
  · rcases List.mem_cons.mp hpending with rfl | hpending
    · exact .inl List.mem_cons_self
    · exact .inr (.inr (List.mem_append_right _ hpending))

theorem Collecting.seen
    (hcollecting : Collecting preds func allowed start (current :: pending) collected)
    (hmem : current ∈ collected.blocksInRegion) :
    Collecting preds func allowed start pending collected where
  mem_allowed := hcollecting.mem_allowed
  plain := hcollecting.plain
  pending_allowed x hx := hcollecting.pending_allowed x (List.mem_cons_of_mem current hx)
  closed x hx source hsource :=
    settled_of_cons (.inl hmem) (hcollecting.closed x hx source hsource)
  started x hx := settled_of_cons (.inl hmem) (hcollecting.started x hx)
  pending_barrier x hx := hcollecting.pending_barrier x (List.mem_cons_of_mem current hx)
  entry_barrier := hcollecting.entry_barrier
  has_entry x hx source hsource hbarrier := by
    rcases hcollecting.has_entry x hx source hsource hbarrier with hpending | hsome
    · rcases List.mem_cons.mp hpending with rfl | hpending
      · exact absurd hbarrier (hcollecting.plain _ hmem).1
      · exact .inl hpending
    · exact .inr hsome

theorem Collecting.atBarrier
    (hcollecting : Collecting preds func allowed start (current :: pending) collected)
    (hcurrent : current ∈ barriers func) :
    Collecting preds func allowed start pending (collected.withBarrier current) where
  mem_allowed := hcollecting.mem_allowed
  plain := hcollecting.plain
  pending_allowed x hx := hcollecting.pending_allowed x (List.mem_cons_of_mem current hx)
  closed x hx source hsource :=
    settled_of_cons (.inr hcurrent) (hcollecting.closed x hx source hsource)
  started x hx := settled_of_cons (.inr hcurrent) (hcollecting.started x hx)
  pending_barrier x hx := hcollecting.pending_barrier x (List.mem_cons_of_mem current hx)
  entry_barrier x hx := by
    rcases Option.or_eq_some_iff.mp hx with hold | ⟨-, hnew⟩
    · exact hcollecting.entry_barrier x hold
    · obtain rfl := Option.some.inj hnew
      exact ⟨hcurrent, hcollecting.pending_barrier current (by simp) hcurrent⟩
  has_entry _ _ _ _ _ := .inr (by simp [Collected.withBarrier])

theorem Collecting.atBlock
    (hcollecting : Collecting preds func allowed start (current :: pending) collected)
    (hallowed : ∀ x ∈ allowed, ∀ source ∈ preds x, source ∉ barriers func → source ∈ allowed)
    (hcurrent : current ∉ barriers func) (hplain : (func.body current).hasBarrier = false) :
    Collecting preds func allowed start ((preds current).reverse ++ pending)
      (collected.withBlock current) := by
  have hin := hcollecting.pending_allowed current (by simp) hcurrent
  refine ⟨?_, ?_, ?_, ?_, ?_, ?_, ?_, ?_⟩
  · intro x hx
    rcases List.mem_cons.mp hx with rfl | hx
    · exact hin
    · exact hcollecting.mem_allowed x hx
  · intro x hx
    rcases List.mem_cons.mp hx with rfl | hx
    · exact ⟨hcurrent, hplain⟩
    · exact hcollecting.plain x hx
  · intro x hx hnot
    rcases List.mem_append.mp hx with hpred | hpending
    · exact hallowed current hin x (List.mem_reverse.mp hpred) hnot
    · exact hcollecting.pending_allowed x (List.mem_cons_of_mem current hpending) hnot
  · intro x hx source hsource
    rcases List.mem_cons.mp hx with rfl | hx
    · exact .inr (.inr (by simp [hsource]))
    · exact settled_withBlock (hcollecting.closed x hx source hsource)
  · intro x hx
    exact settled_withBlock (hcollecting.started x hx)
  · intro x hx hbarrier
    rcases List.mem_append.mp hx with hpred | hpending
    · exact ⟨current, List.mem_cons_self, List.mem_reverse.mp hpred⟩
    · obtain ⟨block, hblock, hmem⟩ :=
        hcollecting.pending_barrier x (List.mem_cons_of_mem current hpending) hbarrier
      exact ⟨block, List.mem_cons_of_mem current hblock, hmem⟩
  · intro x hx
    obtain ⟨hbarrier, block, hblock, hmem⟩ := hcollecting.entry_barrier x hx
    exact ⟨hbarrier, block, List.mem_cons_of_mem current hblock, hmem⟩
  · intro x hx source hsource hbarrier
    rcases List.mem_cons.mp hx with rfl | hx
    · exact .inl (by simp [hsource])
    · rcases hcollecting.has_entry x hx source hsource hbarrier with hpending | hsome
      · rcases List.mem_cons.mp hpending with rfl | hpending
        · exact absurd hbarrier hcurrent
        · exact .inl (List.mem_append_right _ hpending)
      · exact .inr hsome

theorem Collecting.run
    (hcollecting : Collecting preds func allowed start pending collected)
    (hallowed : ∀ x ∈ allowed, ∀ source ∈ preds x, source ∉ barriers func → source ∈ allowed)
    (hrun : collectBlocks preds func fuel pending collected = .ok result) :
    Collecting preds func allowed start [] result := by
  induction fuel generalizing pending collected with
  | zero => cases hrun
  | succ fuel ih =>
      cases pending with
      | nil => exact Except.ok.inj hrun ▸ hcollecting
      | cons current pending =>
          rcases collectBlocks_cons hrun with ⟨hmem, hrun⟩ | ⟨hbarrier, hrun⟩ |
            ⟨_, hnot, hplain, hrun⟩
          · exact ih (hcollecting.seen hmem) hrun
          · exact ih (hcollecting.atBarrier hbarrier) hrun
          · exact ih (hcollecting.atBlock hallowed hnot hplain) hrun

/-- How many blocks can still be pushed. -/
def openEdges
    (preds : BlockId → List BlockId) (nodes : Finset BlockId) (blocks : List BlockId) : ℕ :=
  ∑ block ∈ nodes \ blocks.toFinset, (preds block).length

theorem openEdges_cons
    (preds : BlockId → List BlockId) {nodes : Finset BlockId} {blocks : List BlockId}
    (hnode : current ∈ nodes) (hnew : current ∉ blocks) :
    (preds current).length + openEdges preds nodes (current :: blocks) =
      openEdges preds nodes blocks := by
  have hmem : current ∈ nodes \ blocks.toFinset := by simp [hnode, hnew]
  rw [openEdges, openEdges, List.toFinset_cons, Finset.sdiff_insert]
  exact Finset.add_sum_erase _ (fun block => (preds block).length) hmem

theorem collectBlocks_halts
    {nodes : Finset BlockId} (hacyclic : NoBarrierCycle preds func)
    (hnodes : ∀ b, ∀ source ∈ preds b, source ∈ nodes) (hpending : ∀ x ∈ pending, x ∈ nodes)
    (hfuel : pending.length + openEdges preds nodes collected.blocksInRegion + nodes.card <
      fuel) :
    (collectBlocks preds func fuel pending collected).Halts := by
  induction fuel generalizing pending collected with
  | zero => exact absurd hfuel (Nat.not_lt_zero _)
  | succ fuel ih =>
      cases pending with
      | nil => exact halts_pure collected
      | cons current pending =>
          have hcurrent := hpending current (by simp)
          have hrest : ∀ x ∈ pending, x ∈ nodes := fun x hx =>
            hpending x (List.mem_cons_of_mem current hx)
          rw [List.length_cons] at hfuel
          rw [collectBlocks]
          by_cases hmem : current ∈ collected.blocksInRegion
          · rw [if_pos hmem]
            exact ih hrest (by omega)
          · rw [if_neg hmem]
            refine Halts.bind (halts_asserted _) fun isBarrier hisa => ?_
            have hisa := isaBarrierBlock_eq_ok hisa
            cases isBarrier with
            | true => exact ih hrest (by simpa using by omega)
            | false =>
                have hnot : current ∉ barriers func := by simpa using hisa
                have hrank := hacyclic.rank_lt_card hcurrent
                refine Halts.bind (halts_require _) fun _ _ => ?_
                refine Halts.bind (addPredecessors_halts hacyclic hnodes (by omega) pending)
                  fun pending' hpush => ?_
                rw [addPredecessors_of_notMem hnot hpush]
                have hedges := openEdges_cons preds hcurrent hmem
                refine ih ?_ ?_
                · intro x hx
                  rcases List.mem_append.mp hx with hpred | hx
                  · exact hnodes current x (List.mem_reverse.mp hpred)
                  · exact hrest x hx
                · rw [List.length_append, List.length_reverse]
                  simpa using by omega

end Collection

section Creation

/-- The functions differ in instructions that are no barriers only. -/
structure SameShape (func func' : Func) : Prop where
  order : func'.order = func.order
  succs : func'.succs = func.succs
  barriers : barriers func' = barriers func
  hasBarrier : ∀ block, (func'.body block).hasBarrier = (func.body block).hasBarrier

theorem SameShape.refl (func : Func) : SameShape func func :=
  ⟨rfl, rfl, rfl, fun _ => rfl⟩

theorem SameShape.trans {func' func'' : Func}
    (hfirst : SameShape func func') (hsecond : SameShape func' func'') :
    SameShape func func'' :=
  ⟨hsecond.order.trans hfirst.order, hsecond.succs.trans hfirst.succs,
    hsecond.barriers.trans hfirst.barriers,
    fun block => (hsecond.hasBarrier block).trans (hfirst.hasBarrier block)⟩

/-- A block of one instruction, which is a barrier. -/
def IsOnlyBarrier (content : Block) : Prop :=
  content.instrs.length = 1 ∧ content.instrs.head?.any (fun instr => instr.kind.isBarrier)

theorem mem_barriers_iff :
    block ∈ barriers func ↔ IsOnlyBarrier (func.body block) ∧
      ¬ ((CanonicalizeBarriers.getSinglePredecessor func block).isNone ∧
        block ≠ func.entry) := by
  unfold barriers CanonicalizeBarriers.isBarrierBlock IsOnlyBarrier
  by_cases honly : (func.body block).instrs.length = 1 ∧
      (func.body block).instrs.head?.any (fun instr => instr.kind.isBarrier)
  · rw [Set.mem_ofPred_eq, if_pos honly]
    simp [honly]
  · rw [Set.mem_ofPred_eq, if_neg honly]
    simp [honly]

theorem SameShape.of_blocks
    {func' : Func} (horder : func'.order = func.order) (hsuccs : func'.succs = func.succs)
    (hhas : ∀ block, (func'.body block).hasBarrier = (func.body block).hasBarrier)
    (honly : ∀ block, IsOnlyBarrier (func'.body block) ↔ IsOnlyBarrier (func.body block)) :
    SameShape func func' where
  order := horder
  succs := hsuccs
  barriers := by
    have hpreds : CanonicalizeBarriers.getSinglePredecessor func' =
        CanonicalizeBarriers.getSinglePredecessor func := by
      funext block
      unfold CanonicalizeBarriers.getSinglePredecessor CanonicalizeBarriers.predecessors
      rw [horder, hsuccs]
    ext block
    rw [mem_barriers_iff, mem_barriers_iff, honly, hpreds, Func.entry, horder, ← Func.entry]
  hasBarrier := hhas

theorem sameShape_insertIdLoad
    (module : ModuleValues) (dim : Dim) (hplain : (func.body block).hasBarrier = false) :
    SameShape func (insertIdLoad module func block dim) := by
  have hbody : ∀ other, other ≠ block →
      (insertIdLoad module func block dim).body other = func.body other := fun other hne =>
    func.setBody_of_ne _ hne
  have hterm : ∀ other,
      ((insertIdLoad module func block dim).body other).term = (func.body other).term := by
    intro other
    by_cases heq : other = block
    · rw [heq, insertIdLoad, Func.setBody_self]
    · rw [hbody other heq]
  have hblock : ((insertIdLoad module func block dim).body block).hasBarrier = false := by
    rw [insertIdLoad, Func.setBody_self, Block.hasBarrier, List.any_append, List.any_cons]
    have hsplit : (func.body block).instrs.any (·.kind.isBarrier) = false := hplain
    rw [← List.takeWhile_append_dropWhile (p := (·.kind.isPhi)) (l := (func.body block).instrs),
      List.any_append] at hsplit
    simpa [InstrKind.isBarrier] using hsplit
  have hno : ∀ content : Block, content.hasBarrier = false → ¬ IsOnlyBarrier content := by
    rintro content hcontent ⟨-, hhead⟩
    cases hinstrs : content.instrs with
    | nil => simp [hinstrs] at hhead
    | cons instr rest =>
        simp [hinstrs] at hhead
        simp [Block.hasBarrier, hinstrs, hhead] at hcontent
  refine SameShape.of_blocks rfl (funext fun other => ?_) (fun other => ?_) fun other => ?_
  · rw [Func.succs, hterm other, Func.succs]
  · by_cases heq : other = block
    · rw [heq, hblock, hplain]
    · rw [hbody other heq]
  · by_cases heq : other = block
    · rw [heq]
      exact iff_of_false (hno _ hblock) (hno _ hplain)
    · rw [hbody other heq]

theorem isBarrier_mapOperands
    (value : ValueId → ValueId) (target : BlockId → BlockId) (kind : InstrKind) :
    (kind.mapOperands value target).isBarrier = kind.isBarrier := by
  cases kind with
  | barrier => rfl
  | phi incoming => rfl
  | other opcode operands => rfl

theorem sameShape_localizeIDLoads (module : ModuleValues) (region : ParallelRegion) :
    SameShape func (region.localizeIDLoads module func) := by
  have hbody : ∀ block, (region.localizeIDLoads module func).body block = func.body block ∨
      (region.localizeIDLoads module func).body block =
        (func.body block).mapOperands (region.localizeOperand module func) id := by
    intro block
    rw [ParallelRegion.localizeIDLoads, ParallelRegion.mapBlocks]
    by_cases hmem : block ∈ region.blocks
    · exact .inr (if_pos hmem)
    · exact .inl (if_neg hmem)
  refine SameShape.of_blocks rfl (funext fun block => ?_) (fun block => ?_) fun block => ?_
  · rcases hbody block with heq | heq
    · rw [Func.succs, heq, Func.succs]
    · rw [Func.succs, heq, Func.succs, Block.mapOperands, List.map_id]
  · rcases hbody block with heq | heq
    · rw [heq]
    · simp [heq, Block.hasBarrier, Block.mapOperands, isBarrier_mapOperands,
        Function.comp_def]
  · rcases hbody block with heq | heq
    · rw [heq]
    · cases hinstrs : (func.body block).instrs with
      | nil => simp [heq, IsOnlyBarrier, Block.mapOperands, hinstrs]
      | cons instr rest =>
          simp [heq, IsOnlyBarrier, Block.mapOperands, hinstrs, isBarrier_mapOperands]

theorem sameShape_localIdLoad
    {module : ModuleValues} {dim : Dim} {func' : Func} {region region' : ParallelRegion}
    {entry : BlockId} (hentry : region.entryBB = some entry)
    (hplain : (func.body entry).hasBarrier = false)
    (hrun : localIdLoad module dim (func, region) = .ok (func', region')) :
    SameShape func func' ∧ ∃ idLoad, region' = { region with idLoad := idLoad } := by
  rw [localIdLoad, hentry] at hrun
  obtain ⟨rfl, rfl⟩ := Prod.mk.inj (Except.ok.inj hrun)
  exact ⟨sameShape_insertIdLoad module dim hplain, _, rfl⟩

theorem verify_congr
    {func' : Func} (hshape : SameShape func func') (region : ParallelRegion) :
    verify preds func' region = verify preds func region := by
  simp only [verify, hshape.succs, hshape.hasBarrier]

/-- The blocks of a region in the order of the function, with its entry and exit. -/
structure Created
    (preds : BlockId → List BlockId) (func : Func) (bbs : List BlockId)
    (entry exit : BlockId) (func' : Func) (region : ParallelRegion) : Prop where
  sameShape : SameShape func func'
  blocks : region.blocks = func.order.filter (· ∈ bbs)
  entryIndex : region.entryIndex =
    if entry ∈ region.blocks then region.blocks.idxOf entry else 0
  exitIndex : region.exitIndex =
    if exit ∈ region.blocks ∧ exit ≠ entry then region.blocks.idxOf exit else 0
  verified : verify preds func region = true

theorem createRegion_created
    {module : ModuleValues} {bbs : List BlockId} {entry exit : BlockId} {func' : Func}
    {region : ParallelRegion} (hentry : entry ∈ bbs) (horder : entry ∈ func.order)
    (hplain : (func.body entry).hasBarrier = false)
    (hrun : createRegion preds module func bbs entry exit = .ok (func', region)) :
    Created preds func bbs entry exit func' region := by
  have hmem : entry ∈ func.order.filter (· ∈ bbs) := by simp [hentry, horder]
  have hfirst : (func.order.filter (· ∈ bbs))[(func.order.filter (· ∈ bbs)).idxOf entry]? =
      some entry := List.getElem?_idxOf hmem
  obtain ⟨⟨funcX, regionX⟩, hx, hrun⟩ := bind_eq_ok.mp hrun
  obtain ⟨⟨funcY, regionY⟩, hy, hrun⟩ := bind_eq_ok.mp hrun
  obtain ⟨⟨funcZ, regionZ⟩, hz, hrun⟩ := bind_eq_ok.mp hrun
  obtain ⟨_, hverify, hrun⟩ := bind_eq_ok.mp hrun
  obtain ⟨rfl, rfl⟩ := Prod.mk.inj (Except.ok.inj hrun)
  rw [require_eq_ok] at hverify
  obtain ⟨hshapeX, idX, rfl⟩ := sameShape_localIdLoad
    (by rw [ParallelRegion.entryBB, if_pos hmem]; exact hfirst) hplain hx
  obtain ⟨hshapeY, idY, rfl⟩ := sameShape_localIdLoad
    (by rw [ParallelRegion.entryBB, if_pos hmem]; exact hfirst)
    ((hshapeX.hasBarrier entry).trans hplain) hy
  have hshapeXY := hshapeX.trans hshapeY
  obtain ⟨hshapeZ, idZ, hregion⟩ := sameShape_localIdLoad
    (by rw [ParallelRegion.entryBB, if_pos hmem]; exact hfirst)
    ((hshapeXY.hasBarrier entry).trans hplain) hz
  have hshape := (hshapeXY.trans hshapeZ).trans (sameShape_localizeIDLoads module regionZ)
  subst hregion
  exact ⟨hshape, rfl, rfl, rfl, (verify_congr hshape _).symm.trans hverify⟩

end Creation

section Regions

variable {module : ModuleValues} {func' : Func} {region : ParallelRegion}

/-- A region that was formed before a barrier. -/
structure Formed
    (preds : BlockId → List BlockId) (func : Func) (b : BlockId) (func' : Func)
    (region : ParallelRegion) : Prop where
  sameShape : SameShape func func'
  ordered : region.blocks.Sublist func.order
  mem_iff : ∀ block, block ∈ region.blocks ↔ Before preds (barriers func) b block
  plain : ∀ block ∈ region.blocks,
    block ∉ barriers func ∧ (func.body block).hasBarrier = false
  entered : ∃ entry barrier, region.entryBB = some entry ∧ entry ∈ region.blocks ∧
    barrier ∈ barriers func ∧ entry ∈ func.succs barrier ∧
    ∀ block ∈ region.blocks, ∀ source ∈ preds block, source ∉ region.blocks →
      block = entry ∧ source ∈ barriers func
  left : ∃ exit, region.exitBB = some exit ∧ exit ∈ region.blocks ∧
    (func.succs exit).length = 1

theorem mem_of_mem_preds
    (hpreds : ListsPredecessors func preds) (hsource : source ∈ preds b) :
    source ∈ func.order ∧ b ∈ func.succs source := by
  have hmem := (hpreds b).mem_iff.mp hsource
  rw [CanonicalizeBarriers.predecessors, List.mem_flatMap] at hmem
  obtain ⟨other, hother, hmem⟩ := hmem
  rw [List.mem_map] at hmem
  obtain ⟨target, htarget, rfl⟩ := hmem
  rw [List.mem_filter, decide_eq_true_eq] at htarget
  exact ⟨hother, htarget.2 ▸ htarget.1⟩

theorem mem_preds
    (hpreds : ListsPredecessors func preds) (hsource : source ∈ func.order)
    (hsucc : b ∈ func.succs source) : source ∈ preds b := by
  refine (hpreds b).mem_iff.mpr (List.mem_flatMap.mpr ⟨source, hsource, ?_⟩)
  exact List.mem_map.mpr ⟨b, List.mem_filter.mpr ⟨hsucc, decide_eq_true rfl⟩, rfl⟩

theorem Before.notMem {barriers : Set BlockId} (hbefore : Before preds barriers b block) :
    block ∉ barriers := by
  induction hbefore with
  | pred _ hnot => exact hnot
  | chain _ _ _ _ ih => exact ih
  | step _ _ hnot _ => exact hnot

theorem Before.mem_order {barriers : Set BlockId}
    (hpreds : ListsPredecessors func preds) (hbefore : Before preds barriers b block) :
    block ∈ func.order := by
  induction hbefore with
  | pred hsource _ => exact (mem_of_mem_preds hpreds hsource).1
  | chain _ _ _ _ ih => exact ih
  | step _ hsource _ _ => exact (mem_of_mem_preds hpreds hsource).1

theorem Pushed.mem_order {barriers : Set BlockId}
    (hpreds : ListsPredecessors func preds) (hpushed : Pushed preds barriers b block) :
    block ∈ func.order := by
  induction hpushed with
  | pred hsource _ => exact (mem_of_mem_preds hpreds hsource).1
  | chain _ _ _ _ ih => exact ih

theorem Pushed.before {barriers : Set BlockId}
    (hpushed : Pushed preds barriers b block) (hb : b ∈ barriers) :
    Before preds barriers b block := by
  induction hpushed with
  | pred hsource hnot => exact .pred hsource fun hmem => hnot ⟨hmem, hb⟩
  | chain hsource hbarrier hb _ ih => exact .chain hsource hbarrier hb (ih hbarrier)

/-- The blocks before a barrier are in every set that holds the blocks pushed for it and is
closed. -/
theorem Before.mem_of_closed {barriers blocks : Set BlockId}
    (hbefore : Before preds barriers b block)
    (hstart : ∀ x, Pushed preds barriers b x → x ∉ barriers → x ∈ blocks)
    (hclosed : ∀ x ∈ blocks, ∀ source ∈ preds x, source ∉ barriers → source ∈ blocks) :
    block ∈ blocks := by
  induction hbefore with
  | pred hsource hnot => exact hstart _ (.pred hsource fun hboth => hnot hboth.1) hnot
  | chain hsource hbarrier hb _ ih =>
      exact ih fun x hpushed => hstart x (.chain hsource hbarrier hb hpushed)
  | step _ hsource hnot ih => exact hclosed _ (ih hstart) _ hsource hnot

theorem collecting_start
    (hb : b ∈ barriers func) {pending : List BlockId}
    (hpush : addPredecessors preds func fuel b [] = .ok pending) :
    Collecting preds func {block | Before preds (barriers func) b block}
      {block | Pushed preds (barriers func) b block} pending ⟨[], none⟩ := by
  have hmem : ∀ x, x ∈ pending ↔ Pushed preds (barriers func) b x := fun x => by
    simpa using addPredecessors_adds hpush x
  have hbefore : ∀ x ∈ pending, Before preds (barriers func) b x := fun x hx =>
    ((hmem x).mp hx).before hb
  refine ⟨by simp, by simp, fun x hx _ => hbefore x hx, by simp, fun x hx => ?_, ?_, by simp,
    by simp⟩
  · exact .inr (.inr ((hmem x).mpr hx))
  · exact fun x hx hbarrier => absurd hbarrier (hbefore x hx).notMem

theorem collectBlocks_blocks
    (hb : b ∈ barriers func) {pending : List BlockId} {collected : Collected}
    (hpush : addPredecessors preds func fuel b [] = .ok pending)
    (hrun : collectBlocks preds func fuel pending ⟨[], none⟩ = .ok collected) :
    Collecting preds func {block | Before preds (barriers func) b block}
      {block | Pushed preds (barriers func) b block} [] collected ∧
    ∀ block, block ∈ collected.blocksInRegion ↔ Before preds (barriers func) b block := by
  have hcollecting := (collecting_start hb hpush).run
    (fun x hx source hsource hnot => Before.step hx hsource hnot) hrun
  refine ⟨hcollecting, fun block => ⟨hcollecting.mem_allowed block, fun hbefore => ?_⟩⟩
  have hin : block ∈ {block | block ∈ collected.blocksInRegion} :=
    hbefore.mem_of_closed ?_ ?_
  · exact hin
  · intro x hx hnot
    rcases hcollecting.started x hx with hin | hbarrier | hpending
    · exact hin
    · exact absurd hbarrier hnot
    · cases hpending
  · intro x hx source hsource hnot
    rcases hcollecting.closed x hx source hsource with hin | hbarrier | hpending
    · exact hin
    · exact absurd hbarrier hnot
    · cases hpending

theorem verify_iff :
    verify preds func region = true ↔ ∀ block ∈ region.blocks,
      (∀ source ∈ preds block, source ∈ region.blocks ∨
        region.entryBB = some block ∧ (func.body source).hasBarrier = true) ∧
      (∃ exit, region.exitBB = some exit ∧ (func.succs exit).length = 1) ∧
      (func.body block).hasBarrier = false := by
  simp [verify, Option.any_eq_true, and_assoc]

theorem createParallelRegionBefore_none
    (hb : b ∈ barriers func)
    (hrun : createParallelRegionBefore preds module fuel func b = .ok none) (block : BlockId) :
    ¬ Before preds (barriers func) b block := by
  obtain ⟨pending, hpush, hrun⟩ := bind_eq_ok.mp hrun
  obtain ⟨collected, hcollect, hrun⟩ := bind_eq_ok.mp hrun
  obtain ⟨-, hmem⟩ := collectBlocks_blocks hb hpush hcollect
  by_cases hnil : collected.blocksInRegion = []
  · rw [← hmem block, hnil]
    exact List.not_mem_nil
  · rw [if_neg hnil] at hrun
    obtain ⟨barrier, -, hrun⟩ := bind_eq_ok.mp hrun
    obtain ⟨entry, -, hrun⟩ := bind_eq_ok.mp hrun
    obtain ⟨exit, -, hrun⟩ := bind_eq_ok.mp hrun
    obtain ⟨result, -, hrun⟩ := bind_eq_ok.mp hrun
    cases hrun

/-- How a region is made from the collected blocks. -/
theorem createParallelRegionBefore_some
    (hpreds : ListsPredecessors func preds) (hb : b ∈ barriers func)
    (hrun : createParallelRegionBefore preds module fuel func b = .ok (some (func', region))) :
    ∃ collected barrier entry exit,
      Collecting preds func {block | Before preds (barriers func) b block}
        {block | Pushed preds (barriers func) b block} [] collected ∧
      (∀ block, block ∈ collected.blocksInRegion ↔ Before preds (barriers func) b block) ∧
      barrier ∈ barriers func ∧ entry ∈ func.succs barrier ∧
      entry ∈ collected.blocksInRegion ∧ getSinglePredecessor preds b = some exit ∧
      Created preds func collected.blocksInRegion entry exit func' region := by
  obtain ⟨pending, hpush, hrun⟩ := bind_eq_ok.mp hrun
  obtain ⟨collected, hcollect, hrun⟩ := bind_eq_ok.mp hrun
  obtain ⟨hcollecting, hmem⟩ := collectBlocks_blocks hb hpush hcollect
  by_cases hnil : collected.blocksInRegion = []
  · rw [if_pos hnil] at hrun
    cases hrun
  · rw [if_neg hnil] at hrun
    obtain ⟨barrier, hbarrier, hrun⟩ := bind_eq_ok.mp hrun
    obtain ⟨entry, hentry, hrun⟩ := bind_eq_ok.mp hrun
    obtain ⟨exit, hexit, hrun⟩ := bind_eq_ok.mp hrun
    obtain ⟨result, hcreate, hrun⟩ := bind_eq_ok.mp hrun
    obtain rfl := Option.some.inj (Except.ok.inj hrun)
    rw [asserted_eq_ok] at hbarrier hentry hexit
    have hin : entry ∈ collected.blocksInRegion := by
      simpa using List.find?_some hentry
    have horder := ((hmem entry).mp hin).mem_order hpreds
    exact ⟨collected, barrier, entry, exit, hcollecting, hmem,
      (hcollecting.entry_barrier barrier hbarrier).1, List.mem_of_find?_eq_some hentry, hin,
      hexit, createRegion_created hin horder (hcollecting.plain entry hin).2 hcreate⟩

theorem Created.mem_iff
    {bbs : List BlockId} {entry exit : BlockId}
    (hcreated : Created preds func bbs entry exit func' region)
    (horder : ∀ block ∈ bbs, block ∈ func.order) : block ∈ region.blocks ↔ block ∈ bbs := by
  rw [hcreated.blocks, List.mem_filter, decide_eq_true_eq]
  exact ⟨And.right, fun hmem => ⟨horder block hmem, hmem⟩⟩

theorem Created.entryBB
    {bbs : List BlockId} {entry exit : BlockId}
    (hcreated : Created preds func bbs entry exit func' region)
    (hmem : entry ∈ region.blocks) : region.entryBB = some entry := by
  rw [ParallelRegion.entryBB, hcreated.entryIndex, if_pos hmem]
  exact List.getElem?_idxOf hmem

theorem formed_of_createParallelRegionBefore
    (hpreds : ListsPredecessors func preds) (hb : b ∈ barriers func)
    (hrun : createParallelRegionBefore preds module fuel func b = .ok (some (func', region))) :
    Formed preds func b func' region := by
  obtain ⟨collected, barrier, entry, exit, hcollecting, hmem, hbarrier, hsucc, hentry, -,
    hcreated⟩ := createParallelRegionBefore_some hpreds hb hrun
  have hblocks : ∀ block, block ∈ region.blocks ↔ block ∈ collected.blocksInRegion :=
    fun block => hcreated.mem_iff fun other hother =>
      ((hmem other).mp hother).mem_order hpreds
  have hentryMem := (hblocks entry).mpr hentry
  have hentryBB := hcreated.entryBB hentryMem
  have hverified := verify_iff.mp hcreated.verified
  have hclosed : ∀ block ∈ region.blocks, ∀ source ∈ preds block,
      source ∉ region.blocks → source ∈ barriers func := by
    intro block hblock source hsource hnot
    rcases hcollecting.closed block ((hblocks block).mp hblock) source hsource with
      hin | hbarrier | hpending
    · exact absurd ((hblocks source).mpr hin) hnot
    · exact hbarrier
    · cases hpending
  obtain ⟨-, ⟨last, hlast, hone⟩, -⟩ := hverified entry hentryMem
  refine ⟨hcreated.sameShape, hcreated.blocks ▸ List.filter_sublist,
    fun block => (hblocks block).trans (hmem block),
    fun block hblock => hcollecting.plain block ((hblocks block).mp hblock), ?_,
    ⟨last, hlast, List.mem_of_getElem? hlast, hone⟩⟩
  refine ⟨entry, barrier, hentryBB, hentryMem, hbarrier, hsucc,
    fun block hblock source hsource hnot => ⟨?_, hclosed block hblock source hsource hnot⟩⟩
  rcases (hverified block hblock).1 source hsource with hin | ⟨hfirst, -⟩
  · exact absurd hin hnot
  · exact (Option.some.inj (hentryBB.symm.trans hfirst)).symm

section Bounds

theorem addPredecessor_extends
    {recurse recurse' : BlockId → List BlockId → FuelledRun (List BlockId)}
    (hrecurse : ∀ source v, (recurse source v).Extends (recurse' source v))
    (v : List BlockId) :
    (addPredecessor recurse func b v source).Extends
      (addPredecessor recurse' func b v source) := by
  refine Extends.bind (extends_refl _) fun isSource => ?_
  cases isSource with
  | false => exact extends_refl _
  | true =>
      refine Extends.bind (extends_refl _) fun isTarget => ?_
      cases isTarget with
      | false => exact extends_refl _
      | true => exact hrecurse source v

theorem addPredecessors_extends (fuel : ℕ) (b : BlockId) (v : List BlockId) :
    (addPredecessors preds func fuel b v).Extends
      (addPredecessors preds func (fuel + 1) b v) := by
  induction fuel generalizing b v with
  | zero => exact extends_outOfFuel _
  | succ fuel ih =>
      exact extends_foldlM (fun source _ v => addPredecessor_extends ih v) v

theorem collectBlocks_extends (fuel : ℕ) (pending : List BlockId) (collected : Collected) :
    (collectBlocks preds func fuel pending collected).Extends
      (collectBlocks preds func (fuel + 1) pending collected) := by
  induction fuel generalizing pending collected with
  | zero => exact extends_outOfFuel _
  | succ fuel ih =>
      cases pending with
      | nil => exact extends_refl _
      | cons current pending =>
          rw [collectBlocks, collectBlocks]
          by_cases hmem : current ∈ collected.blocksInRegion
          · rw [if_pos hmem, if_pos hmem]
            exact ih pending collected
          · rw [if_neg hmem, if_neg hmem]
            refine Extends.bind (extends_refl _) fun isBarrier => ?_
            cases isBarrier with
            | true => exact ih pending _
            | false =>
                refine Extends.bind (extends_refl _) fun _ => ?_
                exact Extends.bind (addPredecessors_extends fuel current pending)
                  fun pending' => ih pending' _

theorem createParallelRegionBefore_extends (fuel : ℕ) (b : BlockId) :
    (createParallelRegionBefore preds module fuel func b).Extends
      (createParallelRegionBefore preds module (fuel + 1) func b) :=
  (addPredecessors_extends fuel b []).bind fun pending =>
    (collectBlocks_extends fuel pending ⟨[], none⟩).bind fun _ => extends_refl _

theorem createRegion_halts {bbs : List BlockId} {entry exit : BlockId} :
    (createRegion preds module func bbs entry exit).Halts := by
  refine Halts.bind ?_ fun _ _ => Halts.bind ?_ fun _ _ => Halts.bind ?_ fun _ _ =>
    Halts.bind (halts_require _) fun _ _ => halts_pure _
  all_goals exact Halts.bind (halts_asserted _) fun _ _ => halts_pure _

/-- Unless barriers follow each other in a cycle, there is a region, none, or a failed
assertion, whatever the order of the predecessors. -/
theorem createParallelRegionBefore_terminates
    (hpreds : ListsPredecessors func preds) (hacyclic : NoBarrierCycle preds func)
    (module : ModuleValues) (hb : b ∈ func.order) :
    ∃ fuel, (createParallelRegionBefore preds module fuel func b).Halts := by
  have hnodes : ∀ b, ∀ source ∈ preds b, source ∈ func.order.toFinset :=
    fun b source hsource => List.mem_toFinset.mpr (mem_of_mem_preds hpreds hsource).1
  have hrank := hacyclic.rank_lt_card (List.mem_toFinset.mpr hb)
  refine exists_halts_bind _ (fun fuel => addPredecessors_extends fuel b [])
    (fun pending fuel => (collectBlocks_extends fuel pending ⟨[], none⟩).bind
      fun _ => extends_refl _) ⟨_, addPredecessors_halts hacyclic hnodes hrank []⟩ ?_
  intro fuel pending hpush
  have hpending : ∀ x ∈ pending, x ∈ func.order.toFinset := by
    intro x hx
    rw [addPredecessors_adds hpush x] at hx
    rcases hx with hx | hpushed
    · cases hx
    · exact List.mem_toFinset.mpr (hpushed.mem_order hpreds)
  refine ⟨_, Halts.bind (collectBlocks_halts hacyclic hnodes hpending (Nat.lt_succ_self _))
    fun collected _ => ?_⟩
  by_cases hnil : collected.blocksInRegion = []
  · rw [if_pos hnil]
    exact halts_pure none
  · rw [if_neg hnil]
    refine Halts.bind (halts_asserted _) fun _ _ => Halts.bind (halts_asserted _)
      fun _ _ => Halts.bind (halts_asserted _) fun _ _ => ?_
    exact Halts.bind createRegion_halts fun _ _ => halts_pure _

end Bounds

/-- Every path from the entry of the function goes through the entry of the region. -/
theorem Formed.dominates
    (hpreds : ListsPredecessors func preds) (hblocks : func.HasBlocks)
    (hformed : Formed preds func b func' region) (hstart : func.entry ∈ barriers func) :
    ∃ entry, region.entryBB = some entry ∧
      ∀ block ∈ region.blocks, func.graph.Dominates entry block := by
  obtain ⟨entry, -, hentry, -, -, -, hentered⟩ := hformed.entered
  refine ⟨entry, hentry, fun block hblock havoids => ?_⟩
  have hout : block ∉ region.blocks := by
    clear hblock
    induction havoids with
    | entry _ => exact fun hmem => (hformed.plain _ hmem).1 hstart
    | step hsource hedge hne ih =>
        intro hmem
        have horder := hblocks.reachable_mem hsource.reachable
        exact hne (hentered _ hmem _ (mem_preds hpreds horder hedge) ih).1
  exact hout hblock

/-- The region before a barrier, for every order of the predecessors. -/
theorem createParallelRegionBefore_correct
    (hpreds : ListsPredecessors func preds) (hblocks : func.HasBlocks)
    (hstart : func.entry ∈ barriers func) (hacyclic : NoBarrierCycle preds func)
    (horder : b ∈ func.order) (hb : b ∈ barriers func) (module : ModuleValues) :
    ∃ result : FuelledRun (Option (Func × ParallelRegion)), result.Halts ∧
      (∃ bound, ∀ fuel ≥ bound,
        createParallelRegionBefore preds module fuel func b = result) ∧
      (result = .ok none → ∀ block, ¬ Before preds (barriers func) b block) ∧
      ∀ func' region, result = .ok (some (func', region)) →
        Formed preds func b func' region ∧
          ∃ entry, region.entryBB = some entry ∧
            ∀ block ∈ region.blocks, func.graph.Dominates entry block := by
  obtain ⟨result, hhalts, bound, hbound⟩ :=
    exists_result (fun fuel => createParallelRegionBefore_extends fuel b)
      (createParallelRegionBefore_terminates hpreds hacyclic module horder)
  have hrun := hbound bound le_rfl
  refine ⟨result, hhalts, ⟨bound, hbound⟩, fun hnone => ?_, fun func' region hsome => ?_⟩
  · exact createParallelRegionBefore_none hb (hrun.trans hnone)
  · have hformed := formed_of_createParallelRegionBefore hpreds hb (hrun.trans hsome)
    exact ⟨hformed, hformed.dominates hpreds hblocks hstart⟩

/-- A loop of one block between barriers, with a block before and a block behind it. -/
def loopKernel : Func where
  order := [0, 1, 2, 3, 4, 5, 6]
  body := fun block =>
    let barrier : Instr := ⟨10 * block, .barrier⟩
    let work : Instr := ⟨10 * block, .other 11 []⟩
    let branch (succs : List BlockId) : Terminator := ⟨10 * block + 1, 2, [], succs⟩
    match block with
    | 0 => ⟨[barrier], branch [1]⟩
    | 1 => ⟨[work], branch [2]⟩
    | 2 => ⟨[barrier], branch [3]⟩
    | 3 => ⟨[work], branch [4]⟩
    | 4 => ⟨[barrier], branch [3, 5]⟩
    | 5 => ⟨[work], branch [6]⟩
    | _ => ⟨[barrier], branch []⟩
  freshBlock := 7
  freshValue := 70

def loopKernelModule : ModuleValues :=
  ⟨fun _ => 100, fun n => 200 + n⟩

theorem loopKernel_preds :
    ListsPredecessors loopKernel (CanonicalizeBarriers.predecessors loopKernel) :=
  fun _ => List.Perm.refl _

theorem loopKernel_noBarrierCycle :
    NoBarrierCycle (CanonicalizeBarriers.predecessors loopKernel) loopKernel := by
  have hno : ∀ b source, ¬ BarrierEdge (CanonicalizeBarriers.predecessors loopKernel)
      (barriers loopKernel) b source := by
    rintro b source ⟨hpred, hsource, hb⟩
    have hmem := mem_of_mem_preds loopKernel_preds hpred
    have hcheck : ∀ source ∈ loopKernel.order, ∀ b ∈ loopKernel.succs source,
      CanonicalizeBarriers.isBarrierBlock true loopKernel source = some true →
        CanonicalizeBarriers.isBarrierBlock true loopKernel b ≠ some true := by decide
    exact hcheck source hmem.1 b hmem.2 hsource hb
  intro b hcycle
  cases hcycle with
  | single hedge => exact hno _ _ hedge
  | tail _ hedge => exact hno _ _ hedge

theorem loopKernel_hasBlocks : loopKernel.HasBlocks :=
  ⟨by decide, by decide, by decide, by decide⟩

theorem createParallelRegionBefore_correct_loop :
    ∃ result : FuelledRun (Option (Func × ParallelRegion)), result.Halts ∧
      (∃ bound, ∀ fuel ≥ bound,
        createParallelRegionBefore (CanonicalizeBarriers.predecessors loopKernel)
          loopKernelModule fuel loopKernel 4 = result) ∧
      (result = .ok none → ∀ block, ¬ Before (CanonicalizeBarriers.predecessors loopKernel)
        (barriers loopKernel) 4 block) ∧
      ∀ func' region, result = .ok (some (func', region)) →
        Formed (CanonicalizeBarriers.predecessors loopKernel) loopKernel 4 func' region ∧
          ∃ entry, region.entryBB = some entry ∧
            ∀ block ∈ region.blocks, loopKernel.graph.Dominates entry block :=
  createParallelRegionBefore_correct loopKernel_preds loopKernel_hasBlocks rfl
    loopKernel_noBarrierCycle (by decide) rfl loopKernelModule

end Regions

end Pocl.KernelRegions
