import Mathlib.Data.List.Basic

/-!
# Programs that may fail

A program is an `Except`: it has a value, or it stops with an error.  The rules take a sequence
of programs apart, for its value or for its error, and carry through a loop over a list what
each of its rounds keeps.
-/

namespace Pocl.ExceptPrograms

universe u v w

section Sequences

variable {ε : Type u} {α β : Type v} {stop : ε}

theorem bind_eq_ok {run : Except ε α} {next : α → Except ε β} {result : β} :
    run >>= next = .ok result ↔ ∃ value, run = .ok value ∧ next value = .ok result := by
  cases run with
  | error stop => simp [bind, Except.bind]
  | ok value => simp [bind, Except.bind]

theorem bind_eq_error {run : Except ε α} {next : α → Except ε β} :
    run >>= next = .error stop ↔
      run = .error stop ∨ ∃ value, run = .ok value ∧ next value = .error stop := by
  cases run with
  | error other => simp [bind, Except.bind]
  | ok value => simp [bind, Except.bind]

theorem map_eq_ok {run : Except ε α} {f : α → β} {result : β} :
    run.map f = .ok result ↔ ∃ value, run = .ok value ∧ f value = result := by
  cases run with
  | error stop => simp [Except.map]
  | ok value => simp [Except.map]

theorem bind_ok_eq_error {run : Except ε α} {f : α → β} :
    (run >>= fun value => .ok (f value)) = .error stop ↔ run = .error stop := by
  rw [bind_eq_error, or_iff_left]
  rintro ⟨value, -, hnext⟩
  cases hnext

end Sequences

section Guards

variable {ε : Type u} {α : Type} {c : Prop} [Decidable c] {failure stop : ε}
  {rest : Except ε α} {result : α}

theorem guard_ok :
    (do if c then throw failure
        rest : Except ε α) = .ok result ↔ ¬c ∧ rest = .ok result := by
  by_cases hc : c
  · simp [hc, throw, throwThe, MonadExceptOf.throw, bind, Except.bind]
  · simp [hc]

theorem guard_error :
    (do if c then throw failure
        rest : Except ε α) = .error stop ↔ (c ∧ failure = stop) ∨ (¬c ∧ rest = .error stop) := by
  by_cases hc : c
  · simp [hc, throw, throwThe, MonadExceptOf.throw, bind, Except.bind]
  · simp [hc]

theorem seq_ok {first : Except ε Unit} :
    (do first
        rest : Except ε α) = .ok result ↔ first = .ok () ∧ rest = .ok result := by
  cases first with
  | error _ => simp [bind, Except.bind]
  | ok _ => simp [bind, Except.bind]

theorem seq_error {first : Except ε Unit} :
    (do first
        rest : Except ε α) = .error stop ↔
      first = .error stop ∨ (first = .ok () ∧ rest = .error stop) := by
  cases first with
  | error _ => simp [bind, Except.bind]
  | ok _ => simp [bind, Except.bind]

end Guards

section Loops

variable {ε : Type u} {σ : Type v} {ι : Type w} {step : σ → ι → Except ε σ} {items : List ι}
  {stop : ε}

/-- A run over a list stops at the step of one of its entries. -/
theorem foldlM_eq_error
    {state : σ} (hrun : items.foldlM step state = .error stop) :
    ∃ seen item rest state', items = seen ++ item :: rest ∧
      seen.foldlM step state = .ok state' ∧ step state' item = .error stop := by
  induction items generalizing state with
  | nil => cases hrun
  | cons item rest ih =>
      rw [List.foldlM_cons] at hrun
      rcases bind_eq_error.mp hrun with hstep | ⟨next, hnext, hrest⟩
      · exact ⟨[], item, rest, state, rfl, rfl, hstep⟩
      · obtain ⟨seen, other, later, state', rfl, hseen, hstop⟩ := ih hrest
        refine ⟨item :: seen, other, later, state', rfl, ?_, hstop⟩
        rw [List.foldlM_cons]
        exact bind_eq_ok.mpr ⟨next, hnext, hseen⟩

/-- What each step keeps, the run over the list keeps. -/
theorem foldlM_invariant
    {invariant : σ → Prop} (hstep : ∀ item ∈ items, ∀ state state',
      invariant state → step state item = .ok state' → invariant state')
    {state state' : σ} (hstart : invariant state)
    (hrun : items.foldlM step state = .ok state') : invariant state' := by
  induction items generalizing state with
  | nil => exact Except.ok.inj hrun ▸ hstart
  | cons item rest ih =>
      rw [List.foldlM_cons] at hrun
      obtain ⟨next, hnext, hrest⟩ := bind_eq_ok.mp hrun
      exact ih (fun other hother => hstep other (List.mem_cons_of_mem item hother))
        (hstep item (by simp) state next hstart hnext) hrest

/-- If each step adds what belongs to its entry, the run adds what belongs to any of them. -/
theorem foldlM_adds
    {γ : Type*} (member : σ → γ → Prop) {added : ι → γ → Prop}
    (hstep : ∀ item ∈ items, ∀ state state', step state item = .ok state' →
      ∀ x, member state' x ↔ member state x ∨ added item x)
    {state state' : σ} (hrun : items.foldlM step state = .ok state') (x : γ) :
    member state' x ↔ member state x ∨ ∃ item ∈ items, added item x := by
  induction items generalizing state with
  | nil =>
      obtain rfl := Except.ok.inj hrun
      simp
  | cons item rest ih =>
      rw [List.foldlM_cons] at hrun
      obtain ⟨next, hnext, hrest⟩ := bind_eq_ok.mp hrun
      rw [ih (fun other hother => hstep other (List.mem_cons_of_mem item hother)) hrest,
        hstep item (by simp) state next hnext x, or_assoc, List.exists_mem_cons_iff]

theorem foldlM_eq_foldl
    {f : σ → ι → σ}
    (hstep : ∀ item ∈ items, ∀ state state', step state item = .ok state' →
      state' = f state item)
    {state state' : σ} (hrun : items.foldlM step state = .ok state') :
    state' = items.foldl f state := by
  induction items generalizing state with
  | nil => exact (Except.ok.inj hrun).symm
  | cons item rest ih =>
      rw [List.foldlM_cons] at hrun
      obtain ⟨next, hnext, hrest⟩ := bind_eq_ok.mp hrun
      rw [List.foldl_cons, ← hstep item (by simp) state next hnext]
      exact ih (fun other hother => hstep other (List.mem_cons_of_mem item hother)) hrest

theorem foldlM_settled {state : σ} (hstep : ∀ item ∈ items, step state item = .ok state) :
    items.foldlM step state = .ok state := by
  induction items with
  | nil => rfl
  | cons item rest ih =>
      rw [List.foldlM_cons, hstep item (by simp)]
      exact ih fun other hother => hstep other (List.mem_cons_of_mem item hother)

/-- An invariant of the entries seen so far and the state, with the place of each step. -/
theorem foldlM_split
    {invariant : List ι → σ → Prop} {items : List ι} (hstep : ∀ seen item rest,
      items = seen ++ item :: rest → ∀ state state', invariant seen state →
        step state item = .ok state' → invariant (seen ++ [item]) state')
    {state state' : σ} (hstart : invariant [] state)
    (hrun : items.foldlM step state = .ok state') : invariant items state' := by
  have hgeneral : ∀ rest seen state, items = seen ++ rest → invariant seen state →
      rest.foldlM step state = .ok state' → invariant items state' := by
    intro rest
    induction rest with
    | nil =>
        intro seen state hsplit hseen hrun
        rw [hsplit, List.append_nil]
        exact Except.ok.inj hrun ▸ hseen
    | cons item rest ih =>
        intro seen state hsplit hseen hrun
        rw [List.foldlM_cons] at hrun
        obtain ⟨next, hnext, hrest⟩ := bind_eq_ok.mp hrun
        exact ih (seen ++ [item]) next (by rw [hsplit, List.append_cons])
          (hstep seen item rest hsplit state next hseen hnext) hrest
  exact hgeneral items [] state rfl hstart hrun

/-- A run that stops has kept the invariant up to the entry whose step stops. -/
theorem foldlM_stop
    {invariant : List ι → σ → Prop} {items : List ι} (hstep : ∀ seen item rest,
      items = seen ++ item :: rest → ∀ state state', invariant seen state →
        step state item = .ok state' → invariant (seen ++ [item]) state')
    {state : σ} (hstart : invariant [] state)
    (hrun : items.foldlM step state = .error stop) :
    ∃ seen item rest state', items = seen ++ item :: rest ∧ invariant seen state' ∧
      step state' item = .error stop := by
  obtain ⟨seen, item, rest, state', rfl, hseen, hstop⟩ := foldlM_eq_error hrun
  refine ⟨seen, item, rest, state', rfl, foldlM_split ?_ hstart hseen, hstop⟩
  intro before other after hsplit
  exact hstep before other (after ++ item :: rest) (by rw [hsplit, List.append_assoc]; rfl)

end Loops

end Pocl.ExceptPrograms
