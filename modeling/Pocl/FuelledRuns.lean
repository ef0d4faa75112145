import Pocl.ExceptPrograms

/-!
# Runs with a bound on their steps

A loop or a recursion whose end is not evident gets a bound on the number of its steps.  A
run gives a result, stops at a failed assertion or aborts, or uses the bound up.  It halts if
it does not use the bound up.  Halting goes through sequences and through the runs over the
entries of a list.
-/

namespace Pocl

/-- Why a run has no result. -/
inductive Stop
  | outOfFuel
  | assertion
  | aborted
  deriving DecidableEq

universe u

abbrev FuelledRun (α : Type u) :=
  Except Stop α

namespace FuelledRun

open ExceptPrograms

variable {α β : Type u}

/-- A result that the source asserts. -/
def asserted : Option α → FuelledRun α
  | some value => .ok value
  | none => .error .assertion

/-- A condition that the source asserts. -/
def require (condition : Bool) : FuelledRun Unit :=
  if condition then .ok () else .error .assertion

def Halts (run : FuelledRun α) : Prop :=
  run ≠ .error .outOfFuel

@[simp] theorem halts_ok (value : α) : Halts (.ok value) := by
  simp [Halts]

@[simp] theorem halts_pure (value : α) : Halts (pure value) :=
  halts_ok value

@[simp] theorem halts_assertion : Halts (.error .assertion : FuelledRun α) := by
  simp [Halts]

@[simp] theorem halts_aborted : Halts (.error .aborted : FuelledRun α) := by
  simp [Halts]

@[simp] theorem halts_asserted (value : Option α) : Halts (asserted value) := by
  cases value with
  | none => exact halts_assertion
  | some value => exact halts_ok value

@[simp] theorem halts_require (condition : Bool) : Halts (require condition) := by
  cases condition with
  | false => exact halts_assertion
  | true => exact halts_ok ()

@[simp] theorem asserted_eq_ok {value : Option α} {result : α} :
    asserted value = .ok result ↔ value = some result := by
  cases value with
  | none => simp [asserted]
  | some value => simp [asserted]

@[simp] theorem require_eq_ok {condition : Bool} {result : Unit} :
    require condition = .ok result ↔ condition = true := by
  cases condition with
  | false => simp [require]
  | true => simp [require]

theorem Halts.bind
    {run : FuelledRun α} {next : α → FuelledRun β} (hrun : run.Halts)
    (hnext : ∀ value, run = .ok value → (next value).Halts) : (run >>= next).Halts := by
  cases run with
  | error stop =>
      intro heq
      exact hrun (congrArg Except.error (Except.error.inj heq))
  | ok value => exact hnext value rfl

/-- A run with a larger bound: it agrees with the run that halts. -/
def Extends (run run' : FuelledRun α) : Prop :=
  run.Halts → run' = run

theorem extends_refl (run : FuelledRun α) : run.Extends run :=
  fun _ => rfl

theorem extends_outOfFuel (run : FuelledRun α) : Extends (.error .outOfFuel) run :=
  fun hhalts => absurd rfl hhalts

theorem Extends.bind
    {run run' : FuelledRun α} {next next' : α → FuelledRun β} (hrun : run.Extends run')
    (hnext : ∀ value, (next value).Extends (next' value)) :
    (run >>= next).Extends (run' >>= next') := by
  intro hhalts
  cases run with
  | error stop =>
      have hstop : stop ≠ .outOfFuel := fun heq => hhalts (heq ▸ rfl)
      rw [hrun fun heq => hstop (Except.error.inj heq)]
      rfl
  | ok value =>
      rw [hrun (halts_ok value)]
      exact hnext value hhalts

theorem extends_of_le
    {run : ℕ → FuelledRun α} (hsucc : ∀ fuel, (run fuel).Extends (run (fuel + 1)))
    {fuel fuel' : ℕ} (hle : fuel ≤ fuel') (hhalts : (run fuel).Halts) :
    run fuel' = run fuel := by
  induction hle with
  | refl => rfl
  | step _ ih =>
      rw [hsucc _ (ih ▸ hhalts), ih]

/-- A run that halts has one result for all larger bounds. -/
theorem exists_result
    {run : ℕ → FuelledRun α} (hsucc : ∀ fuel, (run fuel).Extends (run (fuel + 1)))
    (hhalts : ∃ fuel, (run fuel).Halts) :
    ∃ result : FuelledRun α, result.Halts ∧ ∃ bound, ∀ fuel ≥ bound, run fuel = result := by
  obtain ⟨bound, hbound⟩ := hhalts
  exact ⟨run bound, hbound, bound, fun fuel hle => extends_of_le hsucc hle hbound⟩

theorem exists_halts_bind
    {run : ℕ → FuelledRun α} (next : ℕ → α → FuelledRun β)
    (hrun : ∀ fuel, (run fuel).Extends (run (fuel + 1)))
    (hnext : ∀ value fuel, (next fuel value).Extends (next (fuel + 1) value))
    (hhalts : ∃ fuel, (run fuel).Halts)
    (hvalue : ∀ fuel value, run fuel = .ok value → ∃ fuel, (next fuel value).Halts) :
    ∃ fuel, (run fuel >>= next fuel).Halts := by
  obtain ⟨first, hfirst⟩ := hhalts
  cases hresult : run first with
  | error stop =>
      refine ⟨first, ?_⟩
      rw [hresult] at hfirst ⊢
      exact fun heq => hfirst (congrArg Except.error (Except.error.inj heq))
  | ok value =>
      obtain ⟨second, hsecond⟩ := hvalue first value hresult
      refine ⟨max first second, ?_⟩
      rw [extends_of_le hrun (Nat.le_max_left first second) hfirst, hresult]
      change (next (max first second) value).Halts
      rwa [extends_of_le (hnext value) (Nat.le_max_right first second) hsecond]

section Lists

variable {σ : Type u} {ι : Type*} {step : σ → ι → FuelledRun σ} {items : List ι}

theorem halts_foldlM
    (hstep : ∀ item ∈ items, ∀ state, (step state item).Halts) (state : σ) :
    (items.foldlM step state).Halts := by
  induction items generalizing state with
  | nil => exact halts_ok state
  | cons item rest ih =>
      rw [List.foldlM_cons]
      exact (hstep item (by simp) state).bind fun next _ =>
        ih (fun other hother => hstep other (List.mem_cons_of_mem item hother)) next

theorem extends_foldlM
    {step' : σ → ι → FuelledRun σ}
    (hstep : ∀ item ∈ items, ∀ state, (step state item).Extends (step' state item))
    (state : σ) : (items.foldlM step state).Extends (items.foldlM step' state) := by
  induction items generalizing state with
  | nil => exact extends_refl _
  | cons item rest ih =>
      rw [List.foldlM_cons, List.foldlM_cons]
      exact (hstep item (by simp) state).bind fun next =>
        ih (fun other hother => hstep other (List.mem_cons_of_mem item hother)) next

end Lists

end FuelledRun

end Pocl
