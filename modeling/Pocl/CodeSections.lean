import Mathlib.Data.Set.Lattice
import Mathlib.Tactic

/-!
# Sections of code

A machine runs nodes, which add events to a trace and change the memory, and goes on to
other nodes.  A section is a set of nodes that is entered at one node and left at another
one, with a description of what happens in between.

Sections are put one behind the other, and a section is the body of a loop whose
condition is tested at the end.
-/

namespace Pocl.CodeSections

structure Machine (V M E : Type*) where
  run : V → M → List E × M
  next : V → M → V → Prop

namespace Machine

variable {V M E : Type*} (machine : Machine V M E)

/-- A trail through the nodes of a set, with its length, up to the end of the first run of
the last node. -/
inductive Trail (nodes : Set V) (last : V) : ℕ → V → M → List E → M → Prop
  | last {memory : M} (hlast : last ∈ nodes) :
      Trail nodes last 1 last memory (machine.run last memory).1
        (machine.run last memory).2
  | step {length : ℕ} {node next : V} {memory memory' : M} {trace : List E}
      (hnode : node ∈ nodes) (hne : node ≠ last)
      (hnext : machine.next node (machine.run node memory).2 next)
      (htrail : Trail nodes last length next (machine.run node memory).2 trace memory') :
      Trail nodes last (length + 1) node memory ((machine.run node memory).1 ++ trace)
        memory'

/-- What may happen from the entry of a section to the end of its exit.  Only the exit goes
on to other allowed nodes. -/
structure Section
    (allowed nodes : Set V) (entry exit : V) (spec : M → List E → M → Prop) : Prop where
  subset : nodes ⊆ allowed
  entry_mem : entry ∈ nodes
  exit_mem : exit ∈ nodes
  closed : ∀ node ∈ nodes, node ≠ exit → ∀ memory next,
    machine.next node memory next → next ∈ nodes ∨ next ∉ allowed
  meets : ∀ length memory trace memory',
    machine.Trail nodes exit length entry memory trace memory' → spec memory trace memory'

/-- One after the other. -/
def Sequence (first second : M → List E → M → Prop) (memory : M) (trace : List E)
    (memory' : M) : Prop :=
  ∃ middle traceFirst traceSecond,
    first memory traceFirst middle ∧ second middle traceSecond memory' ∧
      trace = traceFirst ++ traceSecond

/-- The rounds of a loop that ends when the test fails after a round. -/
inductive Rounds (test : M → Prop) (body : M → List E → M → Prop) :
    M → List E → M → Prop
  | last {memory memory' : M} {trace : List E} (hbody : body memory trace memory')
      (htest : ¬ test memory') : Rounds test body memory trace memory'
  | more {memory middle memory' : M} {traceFirst traceRest : List E}
      (hbody : body memory traceFirst middle) (htest : test middle)
      (hrest : Rounds test body middle traceRest memory') :
      Rounds test body memory (traceFirst ++ traceRest) memory'

variable {machine} {allowed nodes first second : Set V} {entry exit last node : V}
  {length : ℕ} {memory memory' : M} {trace : List E}
  {spec specFirst specSecond : M → List E → M → Prop}

namespace Trail

theorem node_mem (htrail : machine.Trail nodes last length node memory trace memory') :
    node ∈ nodes := by
  cases htrail with
  | last hlast => exact hlast
  | step hnode _ _ _ => exact hnode

theorem restrict
    (htrail : machine.Trail nodes last length node memory trace memory')
    (hclosed : ∀ node ∈ first, node ≠ last → ∀ memory next,
      machine.next node memory next → next ∈ first ∨ next ∉ nodes)
    (hnode : node ∈ first) :
    machine.Trail first last length node memory trace memory' := by
  induction htrail with
  | last _ => exact .last hnode
  | step _ hne hnext htrail ih =>
      have hmem := (hclosed _ hnode hne _ _ hnext).resolve_right
        (not_not_intro htrail.node_mem)
      exact .step hnode hne hnext (ih hmem)

/-- A trail that leaves a set of nodes which is only left at one node. -/
theorem split
    (htrail : machine.Trail nodes last length node memory trace memory')
    (hclosed : ∀ node ∈ first, node ≠ exit → ∀ memory next,
      machine.next node memory next → next ∈ first ∨ next ∉ nodes)
    (hlast : last ∉ first) (hnode : node ∈ first) :
    ∃ lengthFirst lengthRest next middle traceFirst traceRest,
      machine.Trail first exit lengthFirst node memory traceFirst middle ∧
        machine.next exit middle next ∧
        machine.Trail nodes last lengthRest next middle traceRest memory' ∧
        trace = traceFirst ++ traceRest ∧ length = lengthFirst + lengthRest := by
  induction htrail with
  | last _ => exact (hlast hnode).elim
  | @step length node next memory memory' trace _ hne hnext htrail ih =>
      by_cases hexit : node = exit
      · subst hexit
        exact ⟨1, length, next, _, _, trace, .last hnode, hnext, htrail, rfl,
          Nat.add_comm _ _⟩
      · have hmem := (hclosed _ hnode hexit _ _ hnext).resolve_right
          (not_not_intro htrail.node_mem)
        obtain ⟨lengthFirst, lengthRest, other, middle, traceFirst, traceRest, hfirst,
          hother, hrest, htrace, hlength⟩ := ih hmem
        refine ⟨lengthFirst + 1, lengthRest, other, middle,
          (machine.run node memory).1 ++ traceFirst, traceRest,
          .step hnode hexit hnext hfirst, hother, hrest, ?_, by omega⟩
        rw [htrace, List.append_assoc]

end Trail

namespace Section

variable {entry' exit' : V}

/-- Trails of a section inside any larger set of allowed nodes. -/
theorem split
    (hsection : machine.Section allowed first entry exit spec) (hnodes : nodes ⊆ allowed)
    (hlast : last ∉ first)
    (htrail : machine.Trail nodes last length entry memory trace memory') :
    ∃ lengthRest next middle traceFirst traceRest,
      lengthRest < length ∧ spec memory traceFirst middle ∧
        machine.next exit middle next ∧
        machine.Trail nodes last lengthRest next middle traceRest memory' ∧
        trace = traceFirst ++ traceRest := by
  have hclosed : ∀ node ∈ first, node ≠ exit → ∀ memory next,
      machine.next node memory next → next ∈ first ∨ next ∉ nodes := by
    intro node hnode hne memory next hnext
    exact (hsection.closed node hnode hne memory next hnext).imp_right
      fun hnot hmem => hnot (hnodes hmem)
  obtain ⟨lengthFirst, lengthRest, next, middle, traceFirst, traceRest, hfirst, hnext,
    hrest, htrace, hlength⟩ := htrail.split hclosed hlast hsection.entry_mem
  have hpositive : 0 < lengthFirst := by
    cases hfirst with
    | last _ => exact Nat.one_pos
    | step _ _ _ _ => exact Nat.succ_pos _
  exact ⟨lengthRest, next, middle, traceFirst, traceRest, by omega,
    hsection.meets _ _ _ _ hfirst, hnext, hrest, htrace⟩

theorem mono {spec' : M → List E → M → Prop}
    (hsection : machine.Section allowed nodes entry exit spec)
    (hspec : ∀ memory trace memory', spec memory trace memory' →
      spec' memory trace memory') :
    machine.Section allowed nodes entry exit spec' :=
  ⟨hsection.subset, hsection.entry_mem, hsection.exit_mem, hsection.closed,
    fun length memory trace memory' htrail =>
      hspec _ _ _ (hsection.meets length memory trace memory' htrail)⟩

/-- A section whose exit goes to the entry of another one. -/
theorem append
    (hfirst : machine.Section allowed first entry exit specFirst)
    (hsecond : machine.Section allowed second entry' exit' specSecond)
    (hnot : exit' ∉ first)
    (hnext : ∀ memory next, machine.next exit memory next → next = entry') :
    machine.Section allowed (first ∪ second) entry exit'
      (Sequence specFirst specSecond) := by
  have hsubset : first ∪ second ⊆ allowed :=
    Set.union_subset hfirst.subset hsecond.subset
  refine ⟨hsubset, .inl hfirst.entry_mem, .inr hsecond.exit_mem, ?_, ?_⟩
  · rintro node (hnode | hnode) hne memory next hedge
    · by_cases hexit : node = exit
      · subst hexit
        left
        rw [hnext memory next hedge]
        exact .inr hsecond.entry_mem
      · exact (hfirst.closed node hnode hexit memory next hedge).imp_left .inl
    · exact (hsecond.closed node hnode hne memory next hedge).imp_left .inr
  · intro length memory trace memory' htrail
    obtain ⟨lengthRest, next, middle, traceFirst, traceRest, _, hspec, hedge, hrest,
      htrace⟩ := hfirst.split hsubset hnot htrail
    obtain rfl := hnext middle next hedge
    have hclosed : ∀ node ∈ second, node ≠ exit' → ∀ memory next,
        machine.next node memory next → next ∈ second ∨ next ∉ first ∪ second := by
      intro node hnode hne memory next hedge
      exact (hsecond.closed node hnode hne memory next hedge).imp_right
        fun hnot hmem => hnot (hsubset hmem)
    exact ⟨middle, traceFirst, traceRest, hspec,
      hsecond.meets _ _ _ _ (hrest.restrict hclosed hsecond.entry_mem), htrace⟩

theorem singleton (hallowed : node ∈ allowed) :
    machine.Section allowed {node} node node fun memory trace memory' =>
      trace = (machine.run node memory).1 ∧ memory' = (machine.run node memory).2 := by
  refine ⟨Set.singleton_subset_iff.mpr hallowed, rfl, rfl, ?_, ?_⟩
  · intro other hother hne
    exact (hne hother).elim
  · intro length memory trace memory' htrail
    cases htrail with
    | last _ => exact ⟨rfl, rfl⟩
    | step _ hne _ _ => exact (hne rfl).elim

variable {test : M → Prop} {init cond finish : V} {start : M → M}

/-- The rounds of a loop from the entry of its body on. -/
theorem rounds
    (hbody : machine.Section allowed nodes entry exit spec)
    (hnodes : first ⊆ allowed)
    (hfinish : finish ∉ nodes) (hne : cond ≠ finish)
    (hexit : ∀ memory next, machine.next exit memory next → next = cond)
    (hcondRun : ∀ memory, machine.run cond memory = ([], memory))
    (hcondNext : ∀ memory next, machine.next cond memory next →
      test memory ∧ next = entry ∨ ¬ test memory ∧ next = finish)
    (hfinishRun : ∀ memory, machine.run finish memory = ([], memory))
    (length : ℕ) :
    ∀ memory trace memory',
      machine.Trail first finish length entry memory trace memory' →
        Rounds test spec memory trace memory' := by
  induction length using Nat.strong_induction_on with
  | _ length ih =>
      intro memory trace memory' htrail
      obtain ⟨lengthRest, next, middle, traceFirst, traceRest, hlt, hspec, hedge, hrest,
        rfl⟩ := hbody.split hnodes hfinish htrail
      obtain rfl := hexit middle next hedge
      cases hrest with
      | last _ => exact (hne rfl).elim
      | @step lengthRest _ after _ _ traceRest _ _ hafter hrest =>
          rw [hcondRun] at hafter hrest ⊢
          rw [List.nil_append]
          rcases hcondNext middle after hafter with ⟨htest, rfl⟩ | ⟨htest, rfl⟩
          · exact .more hspec htest (ih lengthRest (by omega) _ _ _ hrest)
          · cases hrest with
            | last _ =>
                rw [hfinishRun, List.append_nil]
                exact .last hspec htest
            | step _ hnot _ _ => exact (hnot rfl).elim

/-- A loop with its test behind the body. -/
theorem loop
    (hbody : machine.Section allowed nodes entry exit spec)
    (hinit : init ∈ allowed \ nodes) (hcond : cond ∈ allowed)
    (hfinish : finish ∈ allowed \ nodes)
    (hinitFinish : init ≠ finish) (hcondFinish : cond ≠ finish)
    (hexit : ∀ memory next, machine.next exit memory next → next = cond)
    (hinitRun : ∀ memory, machine.run init memory = ([], start memory))
    (hinitNext : ∀ memory next, machine.next init memory next → next = entry)
    (hcondRun : ∀ memory, machine.run cond memory = ([], memory))
    (hcondNext : ∀ memory next, machine.next cond memory next →
      test memory ∧ next = entry ∨ ¬ test memory ∧ next = finish)
    (hfinishRun : ∀ memory, machine.run finish memory = ([], memory)) :
    machine.Section allowed (nodes ∪ {init, cond, finish}) init finish
      fun memory trace memory' => Rounds test spec (start memory) trace memory' := by
  have hsubset : nodes ∪ {init, cond, finish} ⊆ allowed := by
    refine Set.union_subset hbody.subset ?_
    rintro node (rfl | rfl | rfl)
    · exact hinit.1
    · exact hcond
    · exact hfinish.1
  refine ⟨hsubset, .inr (by simp), .inr (by simp), ?_, ?_⟩
  · rintro node (hnode | hnode | hnode | hnode) hne memory next hedge
    · by_cases hnodeExit : node = exit
      · subst hnodeExit
        left
        rw [hexit memory next hedge]
        exact .inr (by simp)
      · exact (hbody.closed node hnode hnodeExit memory next hedge).imp_left .inl
    · subst hnode
      left
      rw [hinitNext memory next hedge]
      exact .inl hbody.entry_mem
    · subst hnode
      left
      rcases hcondNext memory next hedge with ⟨_, rfl⟩ | ⟨_, rfl⟩
      · exact .inl hbody.entry_mem
      · exact .inr (by simp)
    · exact (hne hnode).elim
  · intro length memory trace memory' htrail
    cases htrail with
    | last _ => exact (hinitFinish rfl).elim
    | @step length _ next _ _ trace _ _ hnext htrail =>
        rw [hinitRun] at hnext htrail ⊢
        obtain rfl := hinitNext _ next hnext
        exact hbody.rounds hsubset hfinish.2 hcondFinish hexit hcondRun hcondNext
          hfinishRun length _ _ _ htrail

/-- A section does not depend on where its exit goes to. -/
theorem congr {machine' : Machine V M E}
    (hsection : machine.Section allowed nodes entry exit spec)
    (hrun : ∀ node ∈ nodes, machine'.run node = machine.run node)
    (hnext : ∀ node ∈ nodes, node ≠ exit → machine'.next node = machine.next node) :
    machine'.Section allowed nodes entry exit spec := by
  refine ⟨hsection.subset, hsection.entry_mem, hsection.exit_mem, ?_, ?_⟩
  · intro node hnode hne memory next hedge
    rw [hnext node hnode hne] at hedge
    exact hsection.closed node hnode hne memory next hedge
  · intro length memory trace memory' htrail
    refine hsection.meets length memory trace memory' ?_
    clear hsection
    induction htrail with
    | last hlast =>
        rw [hrun _ hlast]
        exact .last hlast
    | step hnode hne hedge _ ih =>
        rw [hrun _ hnode] at hedge ih ⊢
        rw [hnext _ hnode hne] at hedge
        exact .step hnode hne hedge ih

/-- A copy of a section, with nodes that control gets stuck at. -/
theorem image {V' : Type*} {machine' : Machine V' M E} {allowed' dead : Set V'} {copy : V → V'}
    (hsection : machine.Section allowed nodes entry exit spec)
    (hcopy : Set.InjOn copy nodes) (hallowed : copy '' nodes ∪ dead ⊆ allowed')
    (hrun : ∀ node ∈ nodes, machine'.run (copy node) = machine.run node)
    (hnext : ∀ node ∈ nodes, node ≠ exit → ∀ memory next',
      machine'.next (copy node) memory next' →
        (∃ next ∈ nodes, next' = copy next ∧ machine.next node memory next) ∨
          next' ∈ dead ∨ next' ∉ allowed')
    (hdead : ∀ node ∈ dead, ∀ memory next', ¬ machine'.next node memory next')
    (hexit : copy exit ∉ dead) :
    machine'.Section allowed' (copy '' nodes ∪ dead) (copy entry) (copy exit) spec := by
  refine ⟨hallowed, .inl ⟨entry, hsection.entry_mem, rfl⟩,
    .inl ⟨exit, hsection.exit_mem, rfl⟩, ?_, ?_⟩
  · rintro node' (⟨node, hnode, rfl⟩ | hnode) hne memory next' hedge
    · rcases hnext node hnode (fun heq => hne (congrArg copy heq)) memory next' hedge with
        ⟨next, hmem, rfl, -⟩ | hmem | hnot
      · exact .inl (.inl ⟨next, hmem, rfl⟩)
      · exact .inl (.inr hmem)
      · exact .inr hnot
    · exact (hdead node' hnode memory next' hedge).elim
  · intro length memory trace memory' htrail
    have hback : ∀ {length node' memory trace memory'},
        machine'.Trail (copy '' nodes ∪ dead) (copy exit) length node' memory trace memory' →
          ∀ node ∈ nodes, copy node = node' →
            machine.Trail nodes exit length node memory trace memory' := by
      intro length node' memory trace memory' htrail
      induction htrail with
      | last _ =>
          intro node hnode heq
          obtain rfl := hcopy hnode hsection.exit_mem heq
          rw [hrun node hnode]
          exact .last hnode
      | step _ hne hedge hrest ih =>
          rintro node hnode rfl
          have hneExit : node ≠ exit := fun heq => hne (congrArg copy heq)
          rcases hnext node hnode hneExit _ _ hedge with ⟨next, hmem, rfl, hnext⟩ | hmem | hnot
          · rw [hrun node hnode] at hnext ih ⊢
            exact .step hnode hneExit hnext (ih next hmem rfl)
          · -- A trail that gets stuck does not come to the exit.
            cases hrest with
            | last _ => exact (hexit hmem).elim
            | step _ _ hstuck _ => exact (hdead _ hmem _ _ hstuck).elim
          · exact (hnot (hallowed hrest.node_mem)).elim
    exact hsection.meets length memory trace memory'
      (hback htrail entry hsection.entry_mem rfl)

/-- A section that first changes the memory in its entry, which control does not come back
to. -/
theorem prologue {machine' : Machine V M E} {start : M → M}
    (hsection : machine.Section allowed nodes entry exit spec)
    (hentry : ∀ node ∈ nodes, node ≠ exit → ∀ memory, ¬ machine.next node memory entry)
    (hrunEntry : ∀ memory, machine'.run entry memory = machine.run entry (start memory))
    (hrun : ∀ node ∈ nodes, node ≠ entry → machine'.run node = machine.run node)
    (hnext : ∀ node ∈ nodes, node ≠ exit → machine'.next node = machine.next node) :
    machine'.Section allowed nodes entry exit fun memory => spec (start memory) := by
  have hrest : ∀ {length node memory trace memory'},
      machine'.Trail nodes exit length node memory trace memory' → node ≠ entry →
        machine.Trail nodes exit length node memory trace memory' := by
    intro length node memory trace memory' htrail
    induction htrail with
    | last hlast =>
        intro hne
        rw [hrun _ hlast hne]
        exact .last hlast
    | step hnode hneExit hedge _ ih =>
        intro hne
        rw [hrun _ hnode hne] at hedge ih ⊢
        rw [hnext _ hnode hneExit] at hedge
        exact .step hnode hneExit hedge (ih fun heq => hentry _ hnode hneExit _ (heq ▸ hedge))
  refine ⟨hsection.subset, hsection.entry_mem, hsection.exit_mem, ?_, ?_⟩
  · intro node hnode hne memory next hedge
    rw [hnext node hnode hne] at hedge
    exact hsection.closed node hnode hne memory next hedge
  · intro length memory trace memory' htrail
    cases htrail with
    | last hlast =>
        rw [hrunEntry]
        exact hsection.meets _ _ _ _ (.last hlast)
    | step hnode hneExit hedge htrail =>
        rw [hrunEntry] at hedge htrail ⊢
        rw [hnext _ hnode hneExit] at hedge
        exact hsection.meets _ _ _ _ (.step hnode hneExit hedge
          (hrest htrail fun heq => hentry _ hnode hneExit _ (heq ▸ hedge)))

end Section

end Machine

end Pocl.CodeSections
