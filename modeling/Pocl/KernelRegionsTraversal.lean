import Pocl.KernelRegionsFormation

/-!
# All regions of a kernel

The traversal upwards from the exits ends for every order of the predecessors and all loops:
a round finds a new barrier, or it only works off waiting barriers that were found before.  It
leaves out no block that leads to an exit, unless an entry block has two barriers before it
that are not in its loop: of these only the last one is remembered.
-/

namespace Pocl.KernelRegions

open ExceptPrograms FuelledRun

variable {preds : BlockId → List BlockId} {loopFor : BlockId → Option ℕ}
  {module : ModuleValues} {func : Func} {fuel : ℕ} {exit entry : BlockId} {state state' : State}

section Shape

variable {func' func'' : Func} {b : BlockId} {region : ParallelRegion}

theorem ListsPredecessors.of_sameShape
    (hpreds : ListsPredecessors func preds) (hshape : SameShape func func') :
    ListsPredecessors func' preds := by
  intro block
  have hsame : CanonicalizeBarriers.predecessors func' block =
      CanonicalizeBarriers.predecessors func block := by
    unfold CanonicalizeBarriers.predecessors
    rw [hshape.order, hshape.succs]
  exact hsame ▸ hpreds block

theorem NoBarrierCycle.of_sameShape
    (hacyclic : NoBarrierCycle preds func) (hshape : SameShape func func') :
    NoBarrierCycle preds func' := by
  unfold NoBarrierCycle
  rw [hshape.barriers]
  exact hacyclic

theorem Formed.of_sameShape
    (hformed : Formed preds func' b func'' region) (hshape : SameShape func func') :
    Formed preds func b func'' region where
  sameShape := hshape.trans hformed.sameShape
  ordered := hshape.order ▸ hformed.ordered
  mem_iff := hshape.barriers ▸ hformed.mem_iff
  plain := by
    intro block hblock
    rw [← hshape.barriers, ← hshape.hasBarrier]
    exact hformed.plain block hblock
  entered := by
    have hentered := hformed.entered
    rwa [hshape.barriers, hshape.succs] at hentered
  left := hshape.succs ▸ hformed.left

end Shape

section Scanning

/-- What the loop over the predecessors of an entry block has seen and kept. -/
structure Scanned
    (loopFor : BlockId → Option ℕ) (func : Func) (found : List BlockId) (entry : BlockId)
    (stack seen : List BlockId) (scan : Scan) : Prop where
  barrier : ∀ p ∈ seen, p ∈ barriers func
  exit_mem : ∀ p, scan.exit = some p → p ∈ seen ∧ p ∉ found
  loop_mem : ∀ p, scan.loopBarrier = some p → p ∈ seen ∧ p ∉ found
  pushed : ∃ pushes, scan.exitBlocks = pushes ++ stack ∧ (∀ p ∈ pushes, p ∈ seen ∧ p ∉ found) ∧
    pushes.length + scan.exit.toList.length + scan.loopBarrier.toList.length ≤ seen.length
  inner : ∀ p ∈ seen, p ∉ found → inTheSameLoop loopFor entry p = true →
    p ∈ scan.exitBlocks ∨ scan.loopBarrier = some p
  outer : ∀ p ∈ seen, p ∉ found → inTheSameLoop loopFor entry p = false →
    ∃ q ∈ seen, inTheSameLoop loopFor entry q = false ∧ scan.exit = some q
  count : scan.foundPredecessors = 0 ↔ ∀ p ∈ seen, p ∈ found

variable {found stack seen : List BlockId} {scan scan' : Scan} {barrier : BlockId}

theorem scanned_nil : Scanned loopFor func found entry stack [] ⟨none, none, stack, 0⟩ where
  barrier := by simp
  exit_mem := by simp
  loop_mem := by simp
  pushed := ⟨[], by simp⟩
  inner := by simp
  outer := by simp
  count := by simp

/-- The three things that can happen to a predecessor. -/
theorem scanPredecessor_cases
    (hstep : scanPredecessor loopFor func found entry scan barrier = .ok scan') :
    barrier ∈ barriers func ∧
      ((barrier ∈ found ∧ scan' = scan) ∨
      (barrier ∉ found ∧ inTheSameLoop loopFor entry barrier = true ∧
        scan' = ⟨scan.exit, some barrier, scan.loopBarrier.toList ++ scan.exitBlocks,
          scan.foundPredecessors + 1⟩) ∨
      (barrier ∉ found ∧ inTheSameLoop loopFor entry barrier = false ∧
        scan' = ⟨some barrier, scan.loopBarrier, scan.exitBlocks,
          scan.foundPredecessors + 1⟩)) := by
  obtain ⟨isBarrier, hisa, hstep⟩ := bind_eq_ok.mp hstep
  obtain ⟨_, hrequire, hstep⟩ := bind_eq_ok.mp hstep
  rw [require_eq_ok] at hrequire
  refine ⟨(isaBarrierBlock_eq_ok hisa).mp hrequire, ?_⟩
  by_cases hfound : barrier ∈ found
  · rw [if_pos hfound] at hstep
    exact .inl ⟨hfound, (Except.ok.inj hstep).symm⟩
  · rw [if_neg hfound] at hstep
    cases hloop : inTheSameLoop loopFor entry barrier with
    | true =>
        rw [if_pos hloop] at hstep
        exact .inr (.inl ⟨hfound, rfl, (Except.ok.inj hstep).symm⟩)
    | false =>
        rw [if_neg (by simp [hloop])] at hstep
        exact .inr (.inr ⟨hfound, rfl, (Except.ok.inj hstep).symm⟩)

theorem mem_append_singleton_of_mem {p : BlockId} (hp : p ∈ seen) : p ∈ seen ++ [barrier] :=
  List.mem_append_left _ hp

theorem Scanned.step
    (hscanned : Scanned loopFor func found entry stack seen scan)
    (hstep : scanPredecessor loopFor func found entry scan barrier = .ok scan') :
    Scanned loopFor func found entry stack (seen ++ [barrier]) scan' := by
  obtain ⟨hbarrier, hcases⟩ := scanPredecessor_cases hstep
  have hbarriers : ∀ p ∈ seen ++ [barrier], p ∈ barriers func := by
    intro p hp
    rcases List.mem_append.mp hp with hp | hp
    · exact hscanned.barrier p hp
    · exact List.mem_singleton.mp hp ▸ hbarrier
  have hlast : barrier ∈ seen ++ [barrier] := by simp
  have hgrow : ∀ p, p ∈ seen ∧ p ∉ found → p ∈ seen ++ [barrier] ∧ p ∉ found :=
    fun p hp => ⟨mem_append_singleton_of_mem hp.1, hp.2⟩
  obtain ⟨pushes, hpushes, hmem, hlength⟩ := hscanned.pushed
  rcases hcases with ⟨hfound, rfl⟩ | ⟨hnew, hloop, rfl⟩ | ⟨hnew, hloop, rfl⟩
  · refine ⟨hbarriers, fun p hp => hgrow p (hscanned.exit_mem p hp),
      fun p hp => hgrow p (hscanned.loop_mem p hp),
      ⟨pushes, hpushes, fun p hp => hgrow p (hmem p hp), by simp; omega⟩, ?_, ?_, ?_⟩
    · intro p hp hnot hsame
      rcases List.mem_append.mp hp with hp | hp
      · exact hscanned.inner p hp hnot hsame
      · exact absurd (List.mem_singleton.mp hp ▸ hfound) hnot
    · intro p hp hnot hother
      rcases List.mem_append.mp hp with hp | hp
      · obtain ⟨q, hq, hrest⟩ := hscanned.outer p hp hnot hother
        exact ⟨q, mem_append_singleton_of_mem hq, hrest⟩
      · exact absurd (List.mem_singleton.mp hp ▸ hfound) hnot
    · rw [hscanned.count]
      simp only [List.mem_append, List.mem_singleton, or_imp, forall_and, forall_eq, hfound,
        and_true]
  · refine ⟨hbarriers, fun p hp => hgrow p (hscanned.exit_mem p hp), ?_,
      ⟨scan.loopBarrier.toList ++ pushes, by simp [hpushes], ?_, by simp; omega⟩, ?_, ?_, ?_⟩
    · rintro p hp
      exact Option.some.inj hp ▸ ⟨hlast, hnew⟩
    · intro p hp
      rcases List.mem_append.mp hp with hp | hp
      · exact hgrow p (hscanned.loop_mem p (Option.mem_toList.mp hp))
      · exact hgrow p (hmem p hp)
    · intro p hp hnot hsame
      rcases List.mem_append.mp hp with hp | hp
      · rcases hscanned.inner p hp hnot hsame with hin | heq
        · exact .inl (List.mem_append_right _ hin)
        · exact .inl (List.mem_append_left _ (by simp [heq]))
      · exact .inr (by rw [List.mem_singleton.mp hp])
    · intro p hp hnot hother
      rcases List.mem_append.mp hp with hp | hp
      · obtain ⟨q, hq, hrest⟩ := hscanned.outer p hp hnot hother
        exact ⟨q, mem_append_singleton_of_mem hq, hrest⟩
      · rw [List.mem_singleton.mp hp, hloop] at hother
        cases hother
    · refine iff_of_false (Nat.succ_ne_zero _) fun hall => hnew (hall barrier hlast)
  · refine ⟨hbarriers, ?_, fun p hp => hgrow p (hscanned.loop_mem p hp),
      ⟨pushes, hpushes, fun p hp => hgrow p (hmem p hp), by simp; omega⟩, ?_, ?_, ?_⟩
    · rintro p hp
      exact Option.some.inj hp ▸ ⟨hlast, hnew⟩
    · intro p hp hnot hsame
      rcases List.mem_append.mp hp with hp | hp
      · exact hscanned.inner p hp hnot hsame
      · rw [List.mem_singleton.mp hp, hloop] at hsame
        cases hsame
    · exact fun p hp hnot hother => ⟨barrier, hlast, hloop, rfl⟩
    · refine iff_of_false (Nat.succ_ne_zero _) fun hall => hnew (hall barrier hlast)

/-- Of the barriers before an entry block at most one is not in its loop. -/
def OneOuterBarrier
    (preds : BlockId → List BlockId) (loopFor : BlockId → Option ℕ) (func : Func) : Prop :=
  ∀ entry ∉ barriers func, ∀ p ∈ preds entry, ∀ q ∈ preds entry,
    p ∈ barriers func → q ∈ barriers func → inTheSameLoop loopFor entry p = false →
      inTheSameLoop loopFor entry q = false → p = q

/-- What comes out of a round that made a region. -/
structure Scheduled
    (preds : BlockId → List BlockId) (func : Func) (found : List BlockId) (entry : BlockId)
    (stack : List BlockId) (scan : Scan) : Prop where
  barrier : ∀ p ∈ preds entry, p ∈ barriers func
  exit_mem : ∀ p, scan.exit = some p → p ∈ preds entry ∧ p ∉ found
  pushed : ∃ pushes, scan.exitBlocks = pushes ++ stack ∧
    (∀ p ∈ pushes, p ∈ preds entry ∧ p ∉ found) ∧ pushes.length ≤ (preds entry).length
  count : scan.foundPredecessors = 0 ↔ ∀ p ∈ preds entry, p ∈ found

theorem Scanned.scheduled
    (hscanned : Scanned loopFor func found entry stack (preds entry) scan) :
    Scheduled preds func found entry stack (preferLoopBarrier found scan) := by
  obtain ⟨pushes, hpushes, hmem, hlength⟩ := hscanned.pushed
  unfold preferLoopBarrier
  cases hloop : scan.loopBarrier with
  | none => exact ⟨hscanned.barrier, hscanned.exit_mem,
      ⟨pushes, hpushes, hmem, by omega⟩, hscanned.count⟩
  | some loopBarrier =>
      have hnew := hscanned.loop_mem loopBarrier hloop
      refine ⟨hscanned.barrier, fun p hp => ?_,
        ⟨scan.exit.toList ++ pushes, by simp [hpushes], fun p hp => ?_, ?_⟩, hscanned.count⟩
      · change (if loopBarrier ∈ found then scan.exit else some loopBarrier) = some p at hp
        rw [if_neg hnew.2] at hp
        exact Option.some.inj hp ▸ hnew
      · rcases List.mem_append.mp hp with hp | hp
        · exact hscanned.exit_mem p (Option.mem_toList.mp hp)
        · exact hmem p hp
      · rw [List.length_append]
        omega

/-- No barrier before the entry block is forgotten. -/
theorem Scanned.kept
    (hscanned : Scanned loopFor func found entry stack (preds entry) scan)
    (houter : OneOuterBarrier preds loopFor func) (hentry : entry ∉ barriers func) :
    ∀ p ∈ preds entry, p ∈ found ∨ p ∈ (preferLoopBarrier found scan).exitBlocks ∨
      (preferLoopBarrier found scan).exit = some p := by
  intro p hp
  by_cases hfound : p ∈ found
  · exact .inl hfound
  · right
    have hold : p ∈ scan.exitBlocks ∨ scan.loopBarrier = some p ∨ scan.exit = some p := by
      cases hsame : inTheSameLoop loopFor entry p with
      | true => exact (hscanned.inner p hp hfound hsame).imp_right .inl
      | false =>
          obtain ⟨q, hq, hother, hexit⟩ := hscanned.outer p hp hfound hsame
          have heq := houter entry hentry p hp q hq (hscanned.barrier p hp)
            (hscanned.barrier q hq) hsame hother
          exact .inr (.inr (heq ▸ hexit))
    unfold preferLoopBarrier
    cases hloop : scan.loopBarrier with
    | none =>
        rcases hold with hin | heq | hexit
        · exact .inl hin
        · rw [hloop] at heq
          cases heq
        · exact .inr hexit
    | some loopBarrier =>
        have hnew := hscanned.loop_mem loopBarrier hloop
        rcases hold with hin | heq | hexit
        · exact .inl (List.mem_append_right _ hin)
        · refine .inr ?_
          change (if loopBarrier ∈ found then scan.exit else some loopBarrier) = some p
          rw [if_neg hnew.2, ← hloop, heq]
        · exact .inl (List.mem_append_left _ (by simp [hexit]))

end Scanning

section Rounds

variable {next : Option BlockId}

/-- One round upwards from a barrier. -/
inductive Round
    (preds : BlockId → List BlockId) (loopFor : BlockId → Option ℕ) (exit : BlockId)
    (state : State) : State → Option BlockId → Prop
  | noRegion : (∀ block, ¬ Before preds (barriers state.func) exit block) →
      Round preds loopFor exit state state none
  | region {func' : Func} {region : ParallelRegion} {entry : BlockId} {scan : Scan}
      {next : Option BlockId} :
      Formed preds state.func exit func' region → region.entryBB = some entry →
      Scanned loopFor state.func (exit :: state.foundBarriers) entry state.exitBlocks
        (preds entry) scan →
      (next = none ∧ scan.foundPredecessors = 0 ∨
        (∃ b, next = some b) ∧
          (preferLoopBarrier (exit :: state.foundBarriers) scan).exit = next) →
      Round preds loopFor exit state
        ⟨func', (preferLoopBarrier (exit :: state.foundBarriers) scan).exitBlocks,
          exit :: state.foundBarriers, state.parallelRegions ++ [region]⟩ next

theorem preferLoopBarrier_foundPredecessors (found : List BlockId) (scan : Scan) :
    (preferLoopBarrier found scan).foundPredecessors = scan.foundPredecessors := by
  unfold preferLoopBarrier
  cases scan.loopBarrier with
  | none => rfl
  | some _ => rfl

theorem Scanned.of_sameShape {func' : Func} {found stack seen : List BlockId} {scan : Scan}
    (hscanned : Scanned loopFor func' found entry stack seen scan)
    (hshape : SameShape func func') : Scanned loopFor func found entry stack seen scan :=
  { hscanned with barrier := hshape.barriers ▸ hscanned.barrier }

theorem round_of_followOnce
    (hpreds : ListsPredecessors state.func preds) (hexit : exit ∈ barriers state.func)
    (hrun : followOnce preds loopFor module fuel exit state = .ok (state', next)) :
    Round preds loopFor exit state state' next := by
  obtain ⟨result, hcreate, hrun⟩ := bind_eq_ok.mp hrun
  cases result with
  | none =>
      obtain ⟨rfl, rfl⟩ := Prod.mk.inj (Except.ok.inj hrun)
      exact .noRegion (createParallelRegionBefore_none hexit hcreate)
  | some result =>
      obtain ⟨func', region⟩ := result
      have hformed := formed_of_createParallelRegionBefore hpreds hexit hcreate
      obtain ⟨entry, hentry, hrun⟩ := bind_eq_ok.mp hrun
      obtain ⟨scan, hscan, hrun⟩ := bind_eq_ok.mp hrun
      have hscanned := (foldlM_split (fun seen barrier _ _ scan scan' hscanned hstep =>
        Scanned.step hscanned hstep) scanned_nil hscan).of_sameShape hformed.sameShape
      rw [asserted_eq_ok] at hentry
      dsimp only at hrun
      rw [preferLoopBarrier_foundPredecessors] at hrun
      by_cases hzero : scan.foundPredecessors = 0
      · rw [if_pos hzero] at hrun
        obtain ⟨rfl, rfl⟩ := Prod.mk.inj (Except.ok.inj hrun)
        exact .region hformed hentry hscanned (.inl ⟨rfl, hzero⟩)
      · rw [if_neg hzero] at hrun
        obtain ⟨b, hb, hrun⟩ := bind_eq_ok.mp hrun
        obtain ⟨rfl, rfl⟩ := Prod.mk.inj (Except.ok.inj hrun)
        rw [asserted_eq_ok] at hb
        exact .region hformed hentry hscanned (.inr ⟨⟨b, rfl⟩, hb⟩)

end Rounds

theorem followExit_succ
    (hrun : followExit preds loopFor module (fuel + 1) exit state = .ok state') :
    ∃ between next, followOnce preds loopFor module fuel exit state = .ok (between, next) ∧
      (next = none ∧ between = state' ∨ ∃ b, next = some b ∧
        followExit preds loopFor module fuel b between = .ok state') := by
  obtain ⟨⟨between, next⟩, honce, hrun⟩ := bind_eq_ok.mp hrun
  refine ⟨between, next, honce, ?_⟩
  cases next with
  | none => exact .inl ⟨rfl, Except.ok.inj hrun⟩
  | some b => exact .inr ⟨b, rfl, hrun⟩

section Coverage

/-- A barrier that was found or waits, or that no block but barriers comes before. -/
def Settled
    (preds : BlockId → List BlockId) (func : Func) (found pending : List BlockId)
    (b : BlockId) : Prop :=
  b ∈ found ∨ b ∈ pending ∨ ∀ block, ¬ Before preds (barriers func) b block

/-- What holds between two rounds, when the barriers in `pending` wait. -/
structure Traced
    (preds : BlockId → List BlockId) (func : Func) (state : State)
    (pending : List BlockId) : Prop where
  sameShape : SameShape func state.func
  pending_barrier : ∀ b ∈ pending, b ∈ barriers func
  exits : ∀ block ∈ func.order, func.succs block = [] →
    block ∈ barriers func ∧ Settled preds func state.foundBarriers pending block
  found : ∀ b ∈ state.foundBarriers, ∃ func' region entry, region ∈ state.parallelRegions ∧
    Formed preds func b func' region ∧ region.entryBB = some entry ∧
    ∀ p ∈ preds entry, Settled preds func state.foundBarriers pending p
  regions : ∀ region ∈ state.parallelRegions, ∃ b ∈ barriers func, ∃ func',
    Formed preds func b func' region

theorem Traced.mono
    {pending pending' : List BlockId} (htraced : Traced preds func state pending)
    (hbarrier : ∀ b ∈ pending', b ∈ barriers func)
    (hsettled : ∀ b, Settled preds func state.foundBarriers pending b →
      Settled preds func state.foundBarriers pending' b) :
    Traced preds func state pending' where
  sameShape := htraced.sameShape
  pending_barrier := hbarrier
  exits block hblock hsuccs :=
    (htraced.exits block hblock hsuccs).imp_right (hsettled block)
  found b hb := by
    obtain ⟨func', region, entry, hregion, hformed, hentry, hpreds⟩ := htraced.found b hb
    exact ⟨func', region, entry, hregion, hformed, hentry, fun p hp => hsettled p (hpreds p hp)⟩
  regions := htraced.regions

theorem Traced.round
    {next : Option BlockId} (houter : OneOuterBarrier preds loopFor func)
    (htraced : Traced preds func state (exit :: state.exitBlocks))
    (hround : Round preds loopFor exit state state' next) :
    Traced preds func state' (next.toList ++ state'.exitBlocks) := by
  cases hround with
  | noRegion hnone =>
      refine htraced.mono
        (fun b hb => htraced.pending_barrier b (List.mem_cons_of_mem exit hb)) fun b hb => ?_
      rcases hb with hfound | hpending | hempty
      · exact .inl hfound
      · rcases List.mem_cons.mp hpending with rfl | hpending
        · exact .inr (.inr (htraced.sameShape.barriers ▸ hnone))
        · exact .inr (.inl hpending)
      · exact .inr (.inr hempty)
  | @region func' region entry scan _ hformed hentry hscanned hnext =>
      have hshape := htraced.sameShape
      have hformed := hformed.of_sameShape hshape
      have hscanned := hscanned.of_sameShape hshape
      have hexit := htraced.pending_barrier exit (by simp)
      have hsched := hscanned.scheduled
      obtain ⟨first, -, hfirst, hin, -⟩ := hformed.entered
      obtain rfl : entry = first := Option.some.inj (hentry.symm.trans hfirst)
      have hkept := hscanned.kept houter (hformed.plain entry hin).1
      obtain ⟨pushes, hpushes, hmem, -⟩ := hsched.pushed
      have hnextMem : ∀ b, next = some b → b ∈ preds entry := by
        rintro b rfl
        rcases hnext with ⟨hnone, -⟩ | ⟨-, heq⟩
        · cases hnone
        · exact (hsched.exit_mem b heq).1
      -- A barrier that waited is found now, or still waits.
      have hsettled : ∀ b,
          Settled preds func state.foundBarriers (exit :: state.exitBlocks) b →
          Settled preds func (exit :: state.foundBarriers) (next.toList ++
            (preferLoopBarrier (exit :: state.foundBarriers) scan).exitBlocks) b := by
        rintro b (hfound | hpending | hempty)
        · exact .inl (List.mem_cons_of_mem exit hfound)
        · rcases List.mem_cons.mp hpending with rfl | hpending
          · exact .inl List.mem_cons_self
          · exact .inr (.inl (by simp [hpushes, hpending]))
        · exact .inr (.inr hempty)
      have hpreds : ∀ p ∈ preds entry,
          Settled preds func (exit :: state.foundBarriers) (next.toList ++
            (preferLoopBarrier (exit :: state.foundBarriers) scan).exitBlocks) p := by
        intro p hp
        rcases hnext with ⟨rfl, hzero⟩ | ⟨-, heq⟩
        · exact .inl (hscanned.count.mp hzero p hp)
        · rcases hkept p hp with hfound | hin | hout
          · exact .inl hfound
          · exact .inr (.inl (List.mem_append_right _ hin))
          · exact .inr (.inl (List.mem_append_left _ (by simp [← heq, hout])))
      refine ⟨hformed.sameShape, fun b hb => ?_,
        fun block hblock hsuccs => (htraced.exits block hblock hsuccs).imp_right (hsettled block),
        fun b hb => ?_, fun other hother => ?_⟩
      · rcases List.mem_append.mp hb with hb | hb
        · exact hscanned.barrier b (hnextMem b (Option.mem_toList.mp hb))
        · rw [hpushes] at hb
          rcases List.mem_append.mp hb with hb | hb
          · exact hscanned.barrier b (hmem b hb).1
          · exact htraced.pending_barrier b (List.mem_cons_of_mem exit hb)
      · rcases List.mem_cons.mp hb with rfl | hb
        · exact ⟨func', region, entry, by simp, hformed, hentry, hpreds⟩
        · obtain ⟨func'', region', entry', hregion, hformed', hentry', hpreds'⟩ :=
            htraced.found b hb
          exact ⟨func'', region', entry', List.mem_append_left _ hregion, hformed', hentry',
            fun p hp => hsettled p (hpreds' p hp)⟩
      · rcases List.mem_append.mp hother with hother | hother
        · exact htraced.regions other hother
        · obtain rfl := List.mem_singleton.mp hother
          exact ⟨exit, hexit, func', hformed⟩

theorem Traced.followExit
    (hpreds : ListsPredecessors func preds) (houter : OneOuterBarrier preds loopFor func)
    (htraced : Traced preds func state (exit :: state.exitBlocks))
    (hrun : followExit preds loopFor module fuel exit state = .ok state') :
    Traced preds func state' state'.exitBlocks := by
  induction fuel generalizing exit state with
  | zero => cases hrun
  | succ fuel ih =>
      obtain ⟨between, next, honce, hrest⟩ := followExit_succ hrun
      have hexit := htraced.pending_barrier exit (by simp)
      have htraced := htraced.round houter (round_of_followOnce
        (hpreds.of_sameShape htraced.sameShape) (htraced.sameShape.barriers ▸ hexit) honce)
      rcases hrest with ⟨rfl, rfl⟩ | ⟨b, rfl, hrun⟩
      · exact htraced
      · exact ih htraced hrun

theorem Traced.processExits
    (hpreds : ListsPredecessors func preds) (houter : OneOuterBarrier preds loopFor func)
    (htraced : Traced preds func state state.exitBlocks)
    (hrun : processExits preds loopFor module fuel state = .ok state') :
    Traced preds func state' [] := by
  induction fuel generalizing state with
  | zero => cases hrun
  | succ fuel ih =>
      rw [KernelRegions.processExits] at hrun
      cases hexits : state.exitBlocks with
      | nil =>
          rw [hexits] at hrun
          obtain rfl := Except.ok.inj hrun
          exact hexits ▸ htraced
      | cons exit rest =>
          rw [hexits] at hrun
          obtain ⟨between, hfollow, hrun⟩ := bind_eq_ok.mp hrun
          have hpopped : Traced preds func { state with exitBlocks := rest } (exit :: rest) :=
            ⟨htraced.sameShape, hexits ▸ htraced.pending_barrier, hexits ▸ htraced.exits,
              hexits ▸ htraced.found, htraced.regions⟩
          exact ih (hpopped.followExit hpreds houter hfollow) hrun

theorem addExitBlock_adds
    {exits exits' : List BlockId} {block : BlockId}
    (hstep : addExitBlock func exits block = .ok exits') (x : BlockId) :
    (x ∈ exits' ↔ x ∈ exits ∨ func.succs block = [] ∧ x = block) := by
  unfold addExitBlock at hstep
  by_cases hexit : func.succs block = []
  · rw [if_pos hexit] at hstep
    obtain ⟨_, -, hstep⟩ := bind_eq_ok.mp hstep
    obtain ⟨_, -, hstep⟩ := bind_eq_ok.mp hstep
    obtain rfl := Except.ok.inj hstep
    rw [List.mem_cons, or_comm]
    simp [hexit]
  · rw [if_neg hexit] at hstep
    obtain rfl := Except.ok.inj hstep
    simp [hexit]

theorem addExitBlock_barriers
    {exits exits' : List BlockId} {block : BlockId}
    (hexits : ∀ x ∈ exits, x ∈ barriers func)
    (hstep : addExitBlock func exits block = .ok exits') : ∀ x ∈ exits', x ∈ barriers func := by
  unfold addExitBlock at hstep
  by_cases hexit : func.succs block = []
  · rw [if_pos hexit] at hstep
    obtain ⟨isBarrier, hisa, hstep⟩ := bind_eq_ok.mp hstep
    obtain ⟨_, hrequire, hstep⟩ := bind_eq_ok.mp hstep
    obtain rfl := Except.ok.inj hstep
    rw [require_eq_ok] at hrequire
    intro x hx
    rcases List.mem_cons.mp hx with rfl | hx
    · exact (isaBarrierBlock_eq_ok hisa).mp hrequire
    · exact hexits x hx
  · rw [if_neg hexit] at hstep
    exact Except.ok.inj hstep ▸ hexits

theorem getExitBlocks_spec
    {exits : List BlockId} (hrun : getExitBlocks func = .ok exits) :
    (∀ x ∈ exits, x ∈ barriers func) ∧
      ∀ x, x ∈ exits ↔ x ∈ func.order ∧ func.succs x = [] := by
  refine ⟨foldlM_invariant (fun block _ exits exits' => addExitBlock_barriers) (by simp) hrun,
    fun x => ?_⟩
  rw [foldlM_adds (fun exits x => x ∈ exits)
    (fun block _ exits exits' hstep => addExitBlock_adds hstep) hrun x]
  constructor
  · rintro (hnil | ⟨block, hblock, hexit, rfl⟩)
    · cases hnil
    · exact ⟨hblock, hexit⟩
  · rintro ⟨hblock, hexit⟩
    exact .inr ⟨x, hblock, hexit, rfl⟩

/-- A block that leads to an exit comes before a barrier that was found, and a barrier has
nothing before it that does not come before such a barrier. -/
def Reached
    (preds : BlockId → List BlockId) (func : Func) (found : List BlockId)
    (block : BlockId) : Prop :=
  ∃ b, Settled preds func found [] b ∧
    (block ∉ barriers func → Before preds (barriers func) b block) ∧
    (block ∈ barriers func → ∀ x, Before preds (barriers func) block x →
      Before preds (barriers func) b x)

theorem Settled.reached
    {found : List BlockId} {b : BlockId} (hsettled : Settled preds func found [] b)
    (hb : b ∈ barriers func) : Reached preds func found b :=
  ⟨b, hsettled, fun hnot => absurd hb hnot, fun _ _ hx => hx⟩

theorem Traced.reached_step
    {block target : BlockId} (htraced : Traced preds func state [])
    (hreached : Reached preds func state.foundBarriers target)
    (hpred : block ∈ preds target) : Reached preds func state.foundBarriers block := by
  obtain ⟨b, hsettled, hplain, hbarrier⟩ := hreached
  by_cases hblock : block ∈ barriers func
  · by_cases htarget : target ∈ barriers func
    · exact ⟨b, hsettled, fun hnot => absurd hblock hnot, fun _ x hx =>
        hbarrier htarget x (.chain hpred hblock htarget hx)⟩
    · -- The target is the entry of the region before `b`, so its predecessors are settled.
      have hbefore := hplain htarget
      have hfound : b ∈ state.foundBarriers := by
        rcases hsettled with hfound | hpending | hempty
        · exact hfound
        · cases hpending
        · exact absurd hbefore (hempty target)
      obtain ⟨func', region, entry, -, hformed, hentry, hsettled⟩ := htraced.found b hfound
      obtain ⟨first, -, hfirst, -, -, -, hentered⟩ := hformed.entered
      have hnot : block ∉ region.blocks := fun hin => (hformed.plain block hin).1 hblock
      have heq := (hentered target ((hformed.mem_iff target).mpr hbefore) block hpred hnot).1
      obtain rfl : entry = first := Option.some.inj (hentry.symm.trans hfirst)
      exact (hsettled block (heq ▸ hpred)).reached hblock
  · refine ⟨b, hsettled, fun _ => ?_, fun hmem => absurd hmem hblock⟩
    by_cases htarget : target ∈ barriers func
    · exact hbarrier htarget block (.pred hpred hblock)
    · exact .step (hplain htarget) hpred hblock

theorem Traced.reached
    {block : BlockId} (hpreds : ListsPredecessors func preds) (hblocks : func.HasBlocks)
    (htraced : Traced preds func state []) (hblock : block ∈ func.order)
    (hexit : func.succs exit = [])
    (hpath : Relation.ReflTransGen func.graph.Edge block exit) :
    Reached preds func state.foundBarriers block := by
  induction hpath using Relation.ReflTransGen.head_induction_on with
  | refl =>
      obtain ⟨hbarrier, hsettled⟩ := htraced.exits exit hblock hexit
      exact hsettled.reached hbarrier
  | head hedge _ ih =>
      exact htraced.reached_step (ih (hblocks.succs_mem _ hblock _ hedge))
        (mem_preds hpreds hblock hedge)

theorem traced_of_getParallelRegions
    {func' : Func} {regions : List ParallelRegion} (hpreds : ListsPredecessors func preds)
    (houter : OneOuterBarrier preds loopFor func)
    (hrun : getParallelRegions preds loopFor module fuel func = .ok (func', regions)) :
    ∃ state, Traced preds func state [] ∧ state.parallelRegions = regions := by
  obtain ⟨exits, hexits, hrun⟩ := bind_eq_ok.mp hrun
  obtain ⟨state, hstate, hrun⟩ := bind_eq_ok.mp hrun
  obtain ⟨-, hregions⟩ := Prod.mk.inj (Except.ok.inj hrun)
  obtain ⟨hbarriers, hmem⟩ := getExitBlocks_spec hexits
  have hstart : Traced preds func ⟨func, exits, [], []⟩ exits :=
    ⟨SameShape.refl func, hbarriers, fun block hblock hsuccs =>
      have hin := (hmem block).mpr ⟨hblock, hsuccs⟩
      ⟨hbarriers block hin, .inr (.inl hin)⟩, by simp, by simp⟩
  exact ⟨state, hstart.processExits hpreds houter hstate, hregions⟩

/-- Every block that is no barrier and leads to an exit is in a region, and every region is
the one before some barrier. -/
theorem getParallelRegions_cover
    {func' : Func} {regions : List ParallelRegion} (hpreds : ListsPredecessors func preds)
    (hblocks : func.HasBlocks) (houter : OneOuterBarrier preds loopFor func)
    (hrun : getParallelRegions preds loopFor module fuel func = .ok (func', regions)) :
    (∀ block ∈ func.order, block ∉ barriers func → ∀ exit, func.succs exit = [] →
      Relation.ReflTransGen func.graph.Edge block exit →
        ∃ region ∈ regions, block ∈ region.blocks) ∧
    ∀ region ∈ regions, ∃ b ∈ barriers func, ∃ func', Formed preds func b func' region := by
  obtain ⟨state, htraced, rfl⟩ := traced_of_getParallelRegions hpreds houter hrun
  refine ⟨fun block hblock hplain exit hexit hpath => ?_, htraced.regions⟩
  obtain ⟨b, hsettled, hbefore, -⟩ := htraced.reached hpreds hblocks hblock hexit hpath
  rcases hsettled with hfound | hpending | hempty
  · obtain ⟨func', region, entry, hregion, hformed, -⟩ := htraced.found b hfound
    exact ⟨region, hregion, (hformed.mem_iff block).mpr (hbefore hplain)⟩
  · cases hpending
  · exact absurd (hbefore hplain) (hempty block)

def loopKernelLoops (block : BlockId) : Option ℕ :=
  if block = 3 ∨ block = 4 then some 0 else none

theorem loopKernel_oneOuterBarrier :
    OneOuterBarrier (CanonicalizeBarriers.predecessors loopKernel) loopKernelLoops
      loopKernel := by
  intro entry _ p hp q hq _ _ hpLoop hqLoop
  have hp := mem_of_mem_preds loopKernel_preds hp
  have hq := mem_of_mem_preds loopKernel_preds hq
  have hcheck : ∀ p ∈ loopKernel.order, ∀ q ∈ loopKernel.order,
      ∀ entry ∈ loopKernel.succs p, entry ∈ loopKernel.succs q →
        inTheSameLoop loopKernelLoops entry p = false →
          inTheSameLoop loopKernelLoops entry q = false → p = q := by decide
  exact hcheck p hp.1 q hq.1 entry hp.2 hq.2 hpLoop hqLoop

theorem loopKernel_run : ∃ func' regions,
    getParallelRegions (CanonicalizeBarriers.predecessors loopKernel) loopKernelLoops
      loopKernelModule 40 loopKernel = .ok (func', regions) ∧
    regions.map (fun region => region.blocks) = [[5], [3], [1]] :=
  ⟨_, _, rfl, rfl⟩

theorem getParallelRegions_cover_loop :
    ∃ func' regions,
      getParallelRegions (CanonicalizeBarriers.predecessors loopKernel) loopKernelLoops
        loopKernelModule 40 loopKernel = .ok (func', regions) ∧
      regions.map (fun region => region.blocks) = [[5], [3], [1]] ∧
      (∀ block ∈ loopKernel.order, block ∉ barriers loopKernel → ∀ exit,
        loopKernel.succs exit = [] →
          Relation.ReflTransGen loopKernel.graph.Edge block exit →
            ∃ region ∈ regions, block ∈ region.blocks) ∧
      ∀ region ∈ regions, ∃ b ∈ barriers loopKernel, ∃ func',
        Formed (CanonicalizeBarriers.predecessors loopKernel) loopKernel b func' region := by
  obtain ⟨func', regions, hrun, hregions⟩ := loopKernel_run
  exact ⟨func', regions, hrun, hregions, getParallelRegions_cover loopKernel_preds
    loopKernel_hasBlocks loopKernel_oneOuterBarrier hrun⟩

end Coverage

section Termination

variable {next : Option BlockId} {b : BlockId}

theorem followOnce_extends (fuel : ℕ) (exit : BlockId) (state : State) :
    (followOnce preds loopFor module fuel exit state).Extends
      (followOnce preds loopFor module (fuel + 1) exit state) :=
  (createParallelRegionBefore_extends fuel exit).bind fun _ => extends_refl _

theorem followExit_extends (fuel : ℕ) (exit : BlockId) (state : State) :
    (followExit preds loopFor module fuel exit state).Extends
      (followExit preds loopFor module (fuel + 1) exit state) := by
  induction fuel generalizing exit state with
  | zero => exact extends_outOfFuel _
  | succ fuel ih =>
      refine (followOnce_extends fuel exit state).bind fun result => ?_
      obtain ⟨state, next⟩ := result
      cases next with
      | none => exact extends_refl _
      | some b => exact ih b state

theorem processExits_extends (fuel : ℕ) (state : State) :
    (processExits preds loopFor module fuel state).Extends
      (processExits preds loopFor module (fuel + 1) state) := by
  induction fuel generalizing state with
  | zero => exact extends_outOfFuel _
  | succ fuel ih =>
      rw [processExits, processExits]
      cases state.exitBlocks with
      | nil => exact extends_refl _
      | cons exit rest => exact (followExit_extends fuel exit _).bind ih

theorem scanPredecessor_halts
    {found : List BlockId} {scan : Scan} :
    (scanPredecessor loopFor func found entry scan b).Halts := by
  refine Halts.bind (halts_asserted _) fun isBarrier _ =>
    Halts.bind (halts_require _) fun _ _ => ?_
  by_cases hfound : b ∈ found
  · rw [if_pos hfound]
    exact halts_pure _
  · rw [if_neg hfound]
    cases hloop : inTheSameLoop loopFor entry b with
    | true => exact halts_pure _
    | false => exact halts_pure _

theorem followOnce_halts
    (hpreds : ListsPredecessors state.func preds) (hacyclic : NoBarrierCycle preds state.func)
    (hexit : exit ∈ state.func.order) :
    ∃ fuel, (followOnce preds loopFor module fuel exit state).Halts := by
  obtain ⟨fuel, hhalts⟩ := createParallelRegionBefore_terminates hpreds hacyclic module hexit
  refine ⟨fuel, hhalts.bind fun result _ => ?_⟩
  cases result with
  | none => exact halts_pure _
  | some result =>
      refine Halts.bind (halts_asserted _) fun entry _ =>
        Halts.bind (halts_foldlM (fun _ _ _ => scanPredecessor_halts) _) fun scan _ => ?_
      dsimp only
      by_cases hzero :
          (preferLoopBarrier (exit :: state.foundBarriers) scan).foundPredecessors = 0
      · rw [if_pos hzero]
        exact halts_pure _
      · rw [if_neg hzero]
        exact Halts.bind (halts_asserted _) fun _ _ => halts_pure _

/-- The blocks that are not among the found barriers. -/
def unfound (func : Func) (found : List BlockId) : ℕ :=
  (func.order.toFinset \ found.toFinset).card

theorem unfound_cons_lt
    {found : List BlockId} (hb : b ∈ func.order) (hnew : b ∉ found) :
    unfound func (b :: found) < unfound func found := by
  unfold unfound
  rw [List.toFinset_cons, Finset.sdiff_insert]
  exact Finset.card_erase_lt_of_mem (by simp [hb, hnew])

/-- Waiting barriers are weighed by what they can bring onto the stack: nothing, if they have
not been found yet. -/
def stackWeight (degree : ℕ) (found stack : List BlockId) : ℕ :=
  (stack.map fun b => if b ∈ found then degree + 1 else 1).sum

theorem stackWeight_pushes
    {degree : ℕ} {found pushes stack : List BlockId} (hpushes : ∀ b ∈ pushes, b ∉ found) :
    stackWeight degree found (pushes ++ stack) =
      pushes.length + stackWeight degree found stack := by
  unfold stackWeight
  rw [List.map_append, List.sum_append]
  congr 1
  rw [List.map_congr_left fun b hb => if_neg (hpushes b hb)]
  simp

theorem stackWeight_congr
    {degree : ℕ} {found found' stack : List BlockId} (hsame : ∀ b, b ∈ found' ↔ b ∈ found) :
    stackWeight degree found' stack = stackWeight degree found stack := by
  unfold stackWeight
  simp only [hsame]

/-- The state of a traversal of `func`. -/
structure Traversing (func : Func) (state : State) : Prop where
  sameShape : SameShape func state.func
  stack : ∀ b ∈ state.exitBlocks, b ∈ func.order ∧ b ∈ barriers func

/-- What a round changes that makes a region. -/
structure Advanced
    (func : Func) (degree : ℕ) (exit : BlockId) (state state' : State)
    (next : Option BlockId) : Prop where
  traversing : Traversing func state'
  found : state'.foundBarriers = exit :: state.foundBarriers
  next_mem : ∀ b, next = some b →
    b ∈ func.order ∧ b ∈ barriers func ∧ b ∉ state'.foundBarriers
  pushed : ∃ pushes, state'.exitBlocks = pushes ++ state.exitBlocks ∧ pushes.length ≤ degree ∧
    (∀ b ∈ pushes, b ∉ state'.foundBarriers) ∧ (next = none → pushes = [])

theorem Round.advanced
    {degree : ℕ} (hpreds : ListsPredecessors func preds) (htraversing : Traversing func state)
    (hdegree : ∀ b ∈ func.order, (preds b).length ≤ degree)
    (hround : Round preds loopFor exit state state' next) :
    (state' = state ∧ next = none) ∨ Advanced func degree exit state state' next := by
  cases hround with
  | noRegion _ => exact .inl ⟨rfl, rfl⟩
  | @region func' region entry scan _ hformed hentry hscanned hnext =>
      right
      have hshape := htraversing.sameShape
      have hformed := hformed.of_sameShape hshape
      have hsched := (hscanned.of_sameShape hshape).scheduled
      obtain ⟨pushes, hpushes, hmem, hlength⟩ := hsched.pushed
      have hin : entry ∈ func.order :=
        hformed.ordered.subset (List.mem_of_getElem? hentry)
      have hbarrier : ∀ b ∈ preds entry, b ∈ func.order ∧ b ∈ barriers func := fun b hb =>
        ⟨(mem_of_mem_preds hpreds hb).1, hsched.barrier b hb⟩
      refine ⟨⟨hformed.sameShape, fun b hb => ?_⟩, rfl, fun b hb => ?_,
        pushes, hpushes, hlength.trans (hdegree entry hin), fun b hb => (hmem b hb).2,
        fun hnone => ?_⟩
      · rw [hpushes] at hb
        rcases List.mem_append.mp hb with hb | hb
        · exact hbarrier b (hmem b hb).1
        · exact htraversing.stack b hb
      · subst hb
        rcases hnext with ⟨hnone, -⟩ | ⟨-, heq⟩
        · cases hnone
        · obtain ⟨hpred, hnew⟩ := hsched.exit_mem b heq
          exact ⟨(hbarrier b hpred).1, (hbarrier b hpred).2, hnew⟩
      · rcases hnext with ⟨-, hzero⟩ | ⟨⟨b, hb⟩, -⟩
        · rw [← preferLoopBarrier_foundPredecessors] at hzero
          refine List.eq_nil_iff_forall_not_mem.mpr fun b hb => ?_
          exact (hmem b hb).2 (hsched.count.mp hzero b (hmem b hb).1)
        · rw [hnone] at hb
          cases hb

section Runs

variable {degree : ℕ} (hpreds : ListsPredecessors func preds)
  (hdegree : ∀ b ∈ func.order, (preds b).length ≤ degree)
include hpreds hdegree

theorem Traversing.followOnce
    (htraversing : Traversing func state) (hexit : exit ∈ barriers func)
    (honce : followOnce preds loopFor module fuel exit state = .ok (state', next)) :
    (state' = state ∧ next = none) ∨ Advanced func degree exit state state' next :=
  (round_of_followOnce (hpreds.of_sameShape htraversing.sameShape)
    (htraversing.sameShape.barriers ▸ hexit) honce).advanced hpreds htraversing hdegree

/-- Upwards from a new barrier nothing changes, or a new barrier is found. -/
theorem Traversing.followExit_new
    (htraversing : Traversing func state) (horder : exit ∈ func.order)
    (hexit : exit ∈ barriers func) (hnew : exit ∉ state.foundBarriers)
    (hrun : followExit preds loopFor module fuel exit state = .ok state') :
    state' = state ∨ Traversing func state' ∧
      unfound func state'.foundBarriers < unfound func state.foundBarriers := by
  induction fuel generalizing exit state with
  | zero => cases hrun
  | succ fuel ih =>
      obtain ⟨between, next, honce, hrest⟩ := followExit_succ hrun
      rcases htraversing.followOnce hpreds hdegree hexit honce with ⟨rfl, rfl⟩ | hadvanced
      · rcases hrest with ⟨-, rfl⟩ | ⟨b, hb, -⟩
        · exact .inl rfl
        · cases hb
      · right
        have hlt : unfound func between.foundBarriers < unfound func state.foundBarriers := by
          rw [hadvanced.found]
          exact unfound_cons_lt horder hnew
        rcases hrest with ⟨-, rfl⟩ | ⟨b, rfl, hrun⟩
        · exact ⟨hadvanced.traversing, hlt⟩
        · obtain ⟨hb, hbarrier, hfresh⟩ := hadvanced.next_mem b rfl
          rcases ih hadvanced.traversing hb hbarrier hfresh hrun with rfl | ⟨htrav, hlt'⟩
          · exact ⟨hadvanced.traversing, hlt⟩
          · exact ⟨htrav, hlt'.trans hlt⟩

/-- Upwards from any barrier on the stack, a new barrier is found or the stack gets lighter. -/
theorem Traversing.followExit
    (htraversing : Traversing func state) (horder : exit ∈ func.order)
    (hexit : exit ∈ barriers func)
    (hrun : followExit preds loopFor module fuel exit state = .ok state') :
    Traversing func state' ∧
      (unfound func state'.foundBarriers < unfound func state.foundBarriers ∨
        unfound func state'.foundBarriers = unfound func state.foundBarriers ∧
          stackWeight degree state'.foundBarriers state'.exitBlocks <
            stackWeight degree state.foundBarriers (exit :: state.exitBlocks)) := by
  cases fuel with
  | zero => cases hrun
  | succ fuel =>
      have hcons : stackWeight degree state.foundBarriers (exit :: state.exitBlocks) =
          (if exit ∈ state.foundBarriers then degree + 1 else 1) +
            stackWeight degree state.foundBarriers state.exitBlocks := by
        simp [stackWeight]
      obtain ⟨between, next, honce, hrest⟩ := followExit_succ hrun
      rcases htraversing.followOnce hpreds hdegree hexit honce with ⟨rfl, rfl⟩ | hadvanced
      · rcases hrest with ⟨-, rfl⟩ | ⟨b, hb, -⟩
        · refine ⟨htraversing, .inr ⟨rfl, ?_⟩⟩
          rw [hcons]
          split <;> omega
        · cases hb
      · have hbetween : unfound func between.foundBarriers < unfound func state.foundBarriers ∨
            unfound func between.foundBarriers = unfound func state.foundBarriers ∧
              stackWeight degree between.foundBarriers between.exitBlocks <
                stackWeight degree state.foundBarriers (exit :: state.exitBlocks) := by
          by_cases hold : exit ∈ state.foundBarriers
          · obtain ⟨pushes, hpushes, hlength, hnew, -⟩ := hadvanced.pushed
            have hsame : ∀ b, b ∈ exit :: state.foundBarriers ↔ b ∈ state.foundBarriers := by
              simp [hold]
            rw [hpushes, stackWeight_pushes hnew, hcons, if_pos hold, hadvanced.found,
              stackWeight_congr hsame, unfound, unfound, List.toFinset_cons,
              Finset.insert_eq_of_mem (List.mem_toFinset.mpr hold)]
            exact .inr ⟨rfl, by omega⟩
          · rw [hadvanced.found]
            exact .inl (unfound_cons_lt horder hold)
        rcases hrest with ⟨-, rfl⟩ | ⟨b, rfl, hrun⟩
        · exact ⟨hadvanced.traversing, hbetween⟩
        · obtain ⟨hb, hbarrier, hfresh⟩ := hadvanced.next_mem b rfl
          rcases hadvanced.traversing.followExit_new hpreds hdegree hb hbarrier hfresh hrun with
            rfl | ⟨htrav, hlt⟩
          · exact ⟨hadvanced.traversing, hbetween⟩
          · refine ⟨htrav, .inl ?_⟩
            rcases hbetween with hless | ⟨heq, -⟩
            · exact hlt.trans hless
            · exact heq ▸ hlt

theorem Traversing.followExit_halts_of
    (htraversing : Traversing func state) (hacyclic : NoBarrierCycle preds func)
    (horder : exit ∈ func.order) (hexit : exit ∈ barriers func)
    (hnext : ∀ between b, Advanced func degree exit state between (some b) →
      ∃ fuel, (KernelRegions.followExit preds loopFor module fuel b between).Halts) :
    ∃ fuel, (KernelRegions.followExit preds loopFor module fuel exit state).Halts := by
  have hshape := htraversing.sameShape
  have hround : ∃ fuel,
      (KernelRegions.followExit preds loopFor module (fuel + 1) exit state).Halts := by
    simp only [KernelRegions.followExit]
    apply exists_halts_bind
    · exact fun fuel => followOnce_extends fuel exit state
    · rintro ⟨between, next⟩ fuel
      cases next with
      | none => exact extends_refl _
      | some b => exact followExit_extends fuel b between
    · exact followOnce_halts (hpreds.of_sameShape hshape) (hacyclic.of_sameShape hshape)
        (hshape.order ▸ horder)
    · rintro fuel ⟨between, next⟩ honce
      cases next with
      | none => exact ⟨0, halts_pure _⟩
      | some b =>
          rcases htraversing.followOnce hpreds hdegree hexit honce with ⟨-, hnone⟩ | hadvanced
          · cases hnone
          · exact hnext between b hadvanced
  obtain ⟨fuel, hhalts⟩ := hround
  exact ⟨fuel + 1, hhalts⟩

theorem Traversing.followExit_new_halts
    (htraversing : Traversing func state) (hacyclic : NoBarrierCycle preds func)
    (horder : exit ∈ func.order) (hexit : exit ∈ barriers func)
    (hnew : exit ∉ state.foundBarriers) :
    ∃ fuel, (KernelRegions.followExit preds loopFor module fuel exit state).Halts := by
  induction hcount : unfound func state.foundBarriers using Nat.strong_induction_on
    generalizing exit state with
  | _ count ih =>
      refine htraversing.followExit_halts_of hpreds hdegree hacyclic horder hexit
        fun between b hadvanced => ?_
      obtain ⟨hb, hbarrier, hfresh⟩ := hadvanced.next_mem b rfl
      refine ih _ ?_ hadvanced.traversing hb hbarrier hfresh rfl
      rw [← hcount, hadvanced.found]
      exact unfound_cons_lt horder hnew

theorem Traversing.followExit_halts
    (htraversing : Traversing func state) (hacyclic : NoBarrierCycle preds func)
    (horder : exit ∈ func.order) (hexit : exit ∈ barriers func) :
    ∃ fuel, (KernelRegions.followExit preds loopFor module fuel exit state).Halts := by
  refine htraversing.followExit_halts_of hpreds hdegree hacyclic horder hexit
    fun between b hadvanced => ?_
  obtain ⟨hb, hbarrier, hfresh⟩ := hadvanced.next_mem b rfl
  exact hadvanced.traversing.followExit_new_halts hpreds hdegree hacyclic hb hbarrier hfresh

/-- The measure is the number of barriers to find, and then the weight of the stack. -/
theorem Traversing.processExits_halts
    (htraversing : Traversing func state) (hacyclic : NoBarrierCycle preds func) :
    ∃ fuel, (KernelRegions.processExits preds loopFor module fuel state).Halts := by
  induction hcount : unfound func state.foundBarriers using Nat.strong_induction_on
    generalizing state with
  | _ count ihCount =>
      induction hweight : stackWeight degree state.foundBarriers state.exitBlocks
        using Nat.strong_induction_on generalizing state with
      | _ weight ihWeight =>
          cases hexits : state.exitBlocks with
          | nil =>
              refine ⟨1, ?_⟩
              rw [processExits, hexits]
              exact halts_pure _
          | cons exit rest =>
              obtain ⟨horder, hexit⟩ := htraversing.stack exit (by simp [hexits])
              have hpopped : Traversing func { state with exitBlocks := rest } :=
                ⟨htraversing.sameShape, fun b hb => htraversing.stack b (by simp [hexits, hb])⟩
              obtain ⟨fuel, hhalts⟩ := exists_halts_bind _ (followExit_extends · exit _)
                (fun state fuel => processExits_extends fuel state)
                (hpopped.followExit_halts hpreds hdegree hacyclic horder hexit)
                (fun fuel between hrun => by
                  obtain ⟨hbetween, hless | ⟨heq, hless⟩⟩ :=
                    hpopped.followExit hpreds hdegree horder hexit hrun
                  · exact ihCount _ (hcount ▸ hless) hbetween rfl
                  · exact ihWeight _ (by rw [← hweight, hexits]; exact hless) hbetween
                      (heq.trans hcount) rfl)
              refine ⟨fuel + 1, ?_⟩
              rw [processExits, hexits]
              exact hhalts

end Runs

theorem addExitBlock_halts {exits : List BlockId} {block : BlockId} :
    (addExitBlock func exits block).Halts := by
  unfold addExitBlock
  by_cases hexit : func.succs block = []
  · rw [if_pos hexit]
    exact Halts.bind (halts_asserted _) fun _ _ =>
      Halts.bind (halts_require _) fun _ _ => halts_pure _
  · rw [if_neg hexit]
    exact halts_pure _

/-- For every order of the predecessors and all loops the traversal comes to an end. -/
theorem getParallelRegions_terminates
    (hpreds : ListsPredecessors func preds) (hacyclic : NoBarrierCycle preds func)
    (loopFor : BlockId → Option ℕ) (module : ModuleValues) :
    ∃ result : FuelledRun (Func × List ParallelRegion), result.Halts ∧
      ∃ bound, ∀ fuel ≥ bound, getParallelRegions preds loopFor module fuel func = result := by
  apply exists_result
  · exact fun fuel => (extends_refl _).bind fun exits =>
      (processExits_extends fuel _).bind fun _ => extends_refl _
  · obtain ⟨degree, hdegree⟩ : ∃ degree, ∀ b ∈ func.order, (preds b).length ≤ degree :=
      ⟨(func.order.map fun b => (preds b).length).sum, fun b hb =>
        List.le_sum_of_mem (List.mem_map_of_mem hb)⟩
    refine exists_halts_bind _ (fun fuel => extends_refl _)
      (fun exits fuel => (processExits_extends fuel _).bind fun _ => extends_refl _)
      ⟨0, halts_foldlM (fun _ _ _ => addExitBlock_halts) _⟩ fun _ exits hexits => ?_
    obtain ⟨hbarriers, hmem⟩ := getExitBlocks_spec hexits
    have htraversing : Traversing func ⟨func, exits, [], []⟩ :=
      ⟨SameShape.refl func, fun b hb => ⟨((hmem b).mp hb).1, hbarriers b hb⟩⟩
    obtain ⟨fuel, hhalts⟩ : ∃ fuel,
        (processExits preds loopFor module fuel ⟨func, exits, [], []⟩).Halts :=
      htraversing.processExits_halts hpreds hdegree hacyclic
    exact ⟨fuel, hhalts.bind fun _ _ => halts_pure _⟩

theorem getParallelRegions_terminates_loop :
    ∃ result : FuelledRun (Func × List ParallelRegion), result.Halts ∧
      ∃ bound, ∀ fuel ≥ bound,
        getParallelRegions (CanonicalizeBarriers.predecessors loopKernel) loopKernelLoops
          loopKernelModule fuel loopKernel = result :=
  getParallelRegions_terminates loopKernel_preds loopKernel_noBarrierCycle loopKernelLoops
    loopKernelModule

end Termination

end Pocl.KernelRegions
