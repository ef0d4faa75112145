import Mathlib.Data.Finset.Card
import Mathlib.Data.List.Chain
import Mathlib.Data.Set.Basic
import Mathlib.Logic.Relation

/-!
# Acyclic relations over finitely many nodes

The rank of a node is the number of nodes that can be reached from it in at
least one step.  Along a relation without cycles it decreases, which gives the
induction principle for such relations and the fuel that a search needs.
-/

namespace Pocl

open Relation

variable {α : Type*} {r : α → α → Prop}

def Acyclic (r : α → α → Prop) : Prop :=
  ∀ x, ¬ TransGen r x x

theorem Acyclic.not_reflTransGen {x y : α}
    (hr : Acyclic r) (hxy : TransGen r x y) :
    ¬ ReflTransGen r y x := by
  intro hyx
  exact hr x (hxy.trans_left hyx)

section Rank

open Classical in
noncomputable def rank (r : α → α → Prop) (nodes : Finset α) (x : α) : ℕ :=
  (nodes.filter (fun y => TransGen r x y)).card

variable {nodes : Finset α}

theorem Acyclic.rank_lt {x y : α}
    (hr : Acyclic r) (hy : y ∈ nodes) (hxy : r x y) :
    rank r nodes y < rank r nodes x := by
  classical
  apply Finset.card_lt_card
  rw [Finset.ssubset_iff_of_subset]
  · refine ⟨y, ?_, ?_⟩
    · simp only [Finset.mem_filter]
      exact ⟨hy, TransGen.single hxy⟩
    · simp only [Finset.mem_filter, not_and]
      intro _
      exact hr y
  · intro z hz
    simp only [Finset.mem_filter] at hz ⊢
    exact ⟨hz.1, TransGen.head hxy hz.2⟩

theorem Acyclic.rank_lt_card {x : α}
    (hr : Acyclic r) (hx : x ∈ nodes) :
    rank r nodes x < nodes.card := by
  classical
  apply Finset.card_lt_card
  rw [Finset.ssubset_iff_of_subset (Finset.filter_subset _ _)]
  refine ⟨x, hx, ?_⟩
  simp only [Finset.mem_filter, not_and]
  intro _
  exact hr x

/-- Induction from the successors of a node to the node. -/
theorem Acyclic.induction {motive : α → Prop}
    (hr : Acyclic r) (hnodes : ∀ x y, r x y → y ∈ nodes)
    (hstep : ∀ x, (∀ y, r x y → motive y) → motive x) (x : α) :
    motive x := by
  have hall : ∀ n x, rank r nodes x < n → motive x := by
    intro n
    induction n with
    | zero =>
        intro x hx
        exact absurd hx (Nat.not_lt_zero _)
    | succ n ih =>
        intro x hx
        apply hstep
        intro y hxy
        have hlt := hr.rank_lt (hnodes x y hxy) hxy
        exact ih y (by omega)
  exact hall _ x (Nat.lt_succ_self _)

end Rank

section Paths

/-- There is a path whose nodes all lie in the set. -/
def PathIn (r : α → α → Prop) (nodes : Set α) (x y : α) : Prop :=
  x ∈ nodes ∧ ReflTransGen (fun u v => r u v ∧ v ∈ nodes) x y

variable {nodes : Set α} {x y z : α}

theorem PathIn.refl (hx : x ∈ nodes) : PathIn r nodes x x :=
  ⟨hx, ReflTransGen.refl⟩

theorem PathIn.head
    (hx : x ∈ nodes) (hxy : r x y) (hyz : PathIn r nodes y z) :
    PathIn r nodes x z :=
  ⟨hx, ReflTransGen.head ⟨hxy, hyz.1⟩ hyz.2⟩

theorem PathIn.tail
    (hxy : PathIn r nodes x y) (hyz : r y z) (hz : z ∈ nodes) :
    PathIn r nodes x z :=
  ⟨hxy.1, ReflTransGen.tail hxy.2 ⟨hyz, hz⟩⟩

theorem PathIn.reflTransGen (hxy : PathIn r nodes x y) : ReflTransGen r x y :=
  hxy.2.lift id (fun _ _ h => h.1)

theorem PathIn.right_mem (hxy : PathIn r nodes x y) : y ∈ nodes := by
  cases hxy.2 with
  | refl => exact hxy.1
  | tail _ h => exact h.2

theorem PathIn.cases_head (hxy : PathIn r nodes x y) :
    x = y ∨ ∃ z, r x z ∧ PathIn r nodes z y := by
  obtain rfl | ⟨z, hxz, hzy⟩ := ReflTransGen.cases_head hxy.2
  · exact Or.inl rfl
  · exact Or.inr ⟨z, hxz.1, hxz.2, hzy⟩

end Paths

section Stacks

variable {stack : List α} {x y top : α}

/-- A stack of nodes in which each one leads to the one above it. -/
def IsStack (r : α → α → Prop) (stack : List α) : Prop :=
  stack.IsChain (fun above below => r below above)

theorem IsStack.pairwise (hstack : IsStack r stack) :
    stack.Pairwise (fun above below => TransGen r below above) := by
  have hchain : stack.IsChain (fun above below => TransGen r below above) :=
    List.IsChain.imp (fun _ _ h => TransGen.single h) hstack
  have htrans : IsTrans α (fun above below => TransGen r below above) :=
    ⟨fun _ _ _ hxy hyz => hyz.trans hxy⟩
  exact hchain.pairwise

theorem IsStack.transGen_top
    (hstack : IsStack r (top :: stack)) (hx : x ∈ stack) :
    TransGen r x top :=
  (List.pairwise_cons.mp hstack.pairwise).1 x hx

theorem IsStack.reflTransGen_top
    (hstack : IsStack r (top :: stack)) (hx : x ∈ top :: stack) :
    ReflTransGen r x top := by
  obtain rfl | hx := List.mem_cons.mp hx
  · exact ReflTransGen.refl
  · exact (hstack.transGen_top hx).to_reflTransGen

theorem IsStack.tail (hstack : IsStack r (top :: stack)) : IsStack r stack :=
  List.IsChain.tail hstack

theorem IsStack.comparable
    (hstack : IsStack r stack) (hx : x ∈ stack) (hy : y ∈ stack) :
    x = y ∨ TransGen r x y ∨ TransGen r y x := by
  induction stack with
  | nil => cases hx
  | cons top stack ih =>
      obtain rfl | hx' := List.mem_cons.mp hx
      · obtain rfl | hy' := List.mem_cons.mp hy
        · exact Or.inl rfl
        · exact Or.inr (Or.inr (hstack.transGen_top hy'))
      · obtain rfl | hy' := List.mem_cons.mp hy
        · exact Or.inr (Or.inl (hstack.transGen_top hx'))
        · exact ih hstack.tail hx' hy'

theorem IsStack.exists_above
    (hstack : IsStack r (top :: stack)) (hx : x ∈ stack) :
    ∃ above ∈ top :: stack, r x above := by
  induction stack generalizing top with
  | nil => cases hx
  | cons next stack ih =>
      obtain rfl | hx := List.mem_cons.mp hx
      · exact ⟨top, List.mem_cons_self, (List.isChain_cons_cons.mp hstack).1⟩
      · obtain ⟨above, habove, hr⟩ := ih hstack.tail hx
        exact ⟨above, List.mem_cons_of_mem _ habove, hr⟩

theorem IsStack.reflTransGen_bottom {bottom : α}
    (hstack : IsStack r stack) (hbottom : stack.getLast? = some bottom) (hx : x ∈ stack) :
    ReflTransGen r bottom x := by
  induction stack with
  | nil => cases hx
  | cons top stack ih =>
      obtain rfl | hx := List.mem_cons.mp hx
      · exact hstack.reflTransGen_top (List.mem_of_getLast? hbottom)
      · apply ih hstack.tail _ hx
        cases stack with
        | nil => cases hx
        | cons next stack => simpa using hbottom

theorem IsStack.nodup (hr : Acyclic r) (hstack : IsStack r stack) : stack.Nodup := by
  apply hstack.pairwise.imp
  rintro above below h rfl
  exact hr above h

end Stacks

end Pocl
