import Mathlib.Data.Option.Basic
import Mathlib.Data.List.Basic

/-!
# Programs that may be undefined

A program is an `Option`, and it is undefined where that is `none`.  The rules
below take such a program apart, statement by statement, either for its values
only or also for its being defined.
-/

namespace Pocl

universe u v

variable {α : Type u} {β : Type u}

/-- The value of the program has the given property.  Whether the program may be
undefined is the first argument: `True` for partial correctness and `False` for
total correctness. -/
def Meets (mayFail : Prop) (program : Option α) (post : α → Prop) : Prop :=
  match program with
  | none => mayFail
  | some value => post value

namespace Meets

variable {mayFail : Prop} {program : Option α} {post : α → Prop}

theorem iff_forall :
    Meets True program post ↔ ∀ value, program = some value → post value := by
  cases program with
  | none => simp [Meets]
  | some value => simp [Meets]

theorem iff_exists :
    Meets False program post ↔ ∃ value, program = some value ∧ post value := by
  cases program with
  | none => simp [Meets]
  | some value => simp [Meets]

theorem of_eq_some {value : α} (hprogram : program = some value)
    (hpost : post value) : Meets mayFail program post := by
  subst program
  exact hpost

theorem of_forall (hpost : ∀ value, program = some value → post value) :
    Meets True program post :=
  iff_forall.mpr hpost

theorem self (hdefined : ¬mayFail → program.isSome = true) :
    Meets mayFail program fun value => program = some value := by
  cases program with
  | none => exact by_contra fun hnot => absurd (hdefined hnot) Bool.false_ne_true
  | some value => exact rfl

theorem ret {value : α} (hpost : post value) :
    Meets mayFail (pure value) post :=
  hpost

theorem mono
    {weaker : α → Prop} (hmeets : Meets mayFail program post)
    (hweaker : ∀ value, post value → weaker value) :
    Meets mayFail program weaker := by
  cases program with
  | none => exact hmeets
  | some value => exact hweaker value hmeets

theorem also
    {other : α → Prop} (hmeets : Meets mayFail program post)
    (hother : Meets True program other) :
    Meets mayFail program fun value => post value ∧ other value := by
  cases program with
  | none => exact hmeets
  | some value => exact ⟨hmeets, hother⟩

theorem seq
    {next : α → Option β} {after : β → Prop} (hmeets : Meets mayFail program post)
    (hnext : ∀ value, post value → Meets mayFail (next value) after) :
    Meets mayFail (program >>= next) after := by
  cases program with
  | none => exact hmeets
  | some value => exact hnext value hmeets

theorem cond
    {condition : Prop} [Decidable condition] {other : Option α}
    (hthen : condition → Meets mayFail program post)
    (helse : ¬condition → Meets mayFail other post) :
    Meets mayFail (if condition then program else other) post := by
  by_cases hcondition : condition
  · rw [if_pos hcondition]
    exact hthen hcondition
  · rw [if_neg hcondition]
    exact helse hcondition

theorem map
    {change : α → β} {after : β → Prop}
    (hmeets : Meets mayFail program fun value => after (change value)) :
    Meets mayFail (program.map change) after := by
  cases program with
  | none => exact hmeets
  | some value => exact hmeets

/-- The rule for a loop over a list: the invariant speaks about the elements that
are still to come. -/
theorem foldlM
    {body : β → α → Option β} (invariant : List α → β → Prop)
    (hbody : ∀ element rest state, invariant (element :: rest) state →
      Meets mayFail (body state element) (invariant rest))
    {elements : List α} {state : β} (hfirst : invariant elements state) :
    Meets mayFail (elements.foldlM body state) (invariant []) := by
  induction elements generalizing state with
  | nil => exact hfirst
  | cons element rest ih =>
      rw [List.foldlM_cons]
      exact (hbody element rest state hfirst).seq fun _ hnext => ih hnext

end Meets

section Loops

/-- A loop over indices that keeps an invariant and never fails. -/
theorem foldlM_range_spec
    {σ : Type*} {body : σ → ℕ → Option σ} (invariant : ℕ → σ → Prop)
    {start : σ} (bound : ℕ) (hstart : invariant 0 start)
    (hstep : ∀ index < bound, ∀ state, invariant index state →
      ∃ next, body state index = some next ∧ invariant (index + 1) next) :
    ∃ final, (List.range bound).foldlM body start = some final ∧
      invariant bound final := by
  induction bound with
  | zero => exact ⟨start, rfl, hstart⟩
  | succ bound ih =>
      obtain ⟨middle, hrun, hmiddle⟩ := ih fun index hindex =>
        hstep index (Nat.lt_succ_of_lt hindex)
      obtain ⟨final, hlast, hfinal⟩ :=
        hstep bound (Nat.lt_succ_self _) middle hmiddle
      refine ⟨final, ?_, hfinal⟩
      rw [List.range_succ, List.foldlM_append, hrun]
      change Option.bind (some middle) _ = _
      rw [Option.bind_some, List.foldlM_cons, hlast]
      rfl

/-- A loop whose rounds give more results gives more results. -/
theorem foldlM_mono
    {σ ι : Type*} {first second : σ → ι → Option σ} :
    ∀ {items : List ι} {start final : σ},
      (∀ state item next, first state item = some next →
        second state item = some next) →
      items.foldlM first start = some final →
        items.foldlM second start = some final := by
  intro items
  induction items with
  | nil => exact fun _ hrun => hrun
  | cons item rest ih =>
      intro start final hmono hrun
      rw [List.foldlM_cons] at hrun ⊢
      obtain ⟨next, hstep, hrest⟩ := Option.bind_eq_some_iff.mp hrun
      rw [hmono start item next hstep]
      exact ih hmono hrest

end Loops

end Pocl
