import Mathlib.Data.Finset.Card
import Mathlib.Data.Set.Lattice
import Mathlib.Order.FixedPoints
import Mathlib.Tactic.Linarith
import Mathlib.Order.CompletePartialOrder

/-!
# Systems of conjunctive equations

An unknown holds if all items of its equation do.  An item is another unknown, or one
that never holds.  Such a system has a greatest solution.

The search for a result keeps a cache.  Some unknowns are assumed to hold while their
items are searched; if the assumption was wrong, the cache is put back.  The search
ends if there are finitely many of these unknowns and the dependences between the other
ones are bounded by a rank, and its results are those of the greatest solution.
-/

namespace Pocl

structure ConjunctiveSystem (V : Type*) where
  items : V → List (Option V)
  assumable : V → Bool

namespace ConjunctiveSystem

variable {V : Type*} (system : ConjunctiveSystem V)

section Solutions

/-- All items of the unknown hold. -/
def Follows (solution : Set V) (v : V) : Prop :=
  ∀ item ∈ system.items v, ∃ w ∈ solution, item = some w

variable {system}

theorem Follows.mono {first second : Set V} {v : V}
    (hfollows : system.Follows first v) (hle : first ⊆ second) :
    system.Follows second v := by
  intro item hitem
  obtain ⟨w, hw, heq⟩ := hfollows item hitem
  exact ⟨w, hle hw, heq⟩

variable (system)

def step : Set V →o Set V where
  toFun solution := {v | system.Follows solution v}
  monotone' _ _ hle _ hfollows := hfollows.mono hle

def greatest : Set V :=
  system.step.gfp

variable {system}

theorem mem_greatest {v : V} : v ∈ system.greatest ↔ system.Follows system.greatest v := by
  have hfixed : system.step system.greatest = system.greatest := system.step.map_gfp
  exact Set.ext_iff.mp hfixed.symm v

theorem subset_greatest {solution : Set V}
    (hsolution : ∀ v ∈ solution, system.Follows solution v) :
    solution ⊆ system.greatest :=
  system.step.le_gfp hsolution

theorem isGreatest_greatest :
    IsGreatest {solution | ∀ v, v ∈ solution ↔ system.Follows solution v}
      system.greatest :=
  ⟨fun _ => mem_greatest, fun _ hsolution =>
    subset_greatest fun v hv => (hsolution v).mp hv⟩

end Solutions

section Search

abbrev Cache (V : Type*) := V → Option Bool

/-- The items in turn, up to one that does not hold. -/
def scan (query : V → Cache V → Option (Bool × Cache V)) :
    List (Option V) → Cache V → Option (Bool × Cache V)
  | [], cache => some (true, cache)
  | none :: _, cache => some (false, cache)
  | some v :: items, cache =>
      match query v cache with
      | none => none
      | some (false, cache) => some (false, cache)
      | some (true, cache) => scan query items cache

variable [DecidableEq V]

/-- The search, with a bound on the depth of the recursion. -/
def search : ℕ → V → Cache V → Option (Bool × Cache V)
  | 0, _, _ => none
  | fuel + 1, v, cache =>
      match cache v with
      | some result => some (result, cache)
      | none =>
          if system.assumable v then
            (scan (search fuel) (system.items v) (Function.update cache v (some true))).map
              fun (result, checked) =>
                (result, Function.update (if result then checked else cache) v (some result))
          else
            (scan (search fuel) (system.items v) cache).map fun (result, next) =>
              (result, Function.update next v (some result))

/-- A sequence of searches with their results. -/
def searchAll (fuel : ℕ) : List V → Cache V → Option (List Bool × Cache V)
  | [], cache => some ([], cache)
  | v :: vs, cache => do
      let (result, cache) ← system.search fuel v cache
      let (results, cache) ← searchAll fuel vs cache
      return (result :: results, cache)

end Search

section Correctness

variable {system} {cache next : Cache V} {pending : Set V}

/-- The unknowns with a positive result. -/
def positives (cache : Cache V) : Set V :=
  {v | cache v = some true}

/-- Positive results are assumptions or follow from others, and negative ones are those
of the greatest solution. -/
structure Sound (system : ConjunctiveSystem V) (pending : Set V) (cache : Cache V) :
    Prop where
  trues : ∀ v, cache v = some true →
    v ∈ pending ∨ system.Follows (positives cache) v
  falses : ∀ v, cache v = some false → v ∉ system.greatest

theorem Sound.mem_greatest (hsound : system.Sound ∅ cache) {v : V}
    (hv : cache v = some true) : v ∈ system.greatest := by
  have hfollows : ∀ w ∈ positives cache, system.Follows (positives cache) w := by
    intro w hw
    obtain hpending | hfollows := hsound.trues w hw
    · exact hpending.elim
    · exact hfollows
  exact subset_greatest hfollows hv

theorem Sound.mem_greatest_iff (hsound : system.Sound ∅ cache) {v : V} {result : Bool}
    (hv : cache v = some result) : result = true ↔ v ∈ system.greatest := by
  cases result with
  | true => exact ⟨fun _ => hsound.mem_greatest hv, fun _ => rfl⟩
  | false => exact ⟨fun htrue => (nomatch htrue), fun hmem => (hsound.falses v hv hmem).elim⟩

/-- What a query does to the cache. -/
def QuerySound (system : ConjunctiveSystem V)
    (query : V → Cache V → Option (Bool × Cache V)) : Prop :=
  ∀ (pending : Set V) (v : V) (cache next : Cache V) (result : Bool),
    (∀ w ∈ pending, system.assumable w = true) → system.Sound pending cache →
    query v cache = some (result, next) →
    system.Sound pending next ∧ positives cache ⊆ positives next ∧ next v = some result

/-- An item that does not hold. -/
def Fails (cache : Cache V) (item : Option V) : Prop :=
  item = none ∨ ∃ w, item = some w ∧ cache w = some false

variable {query : V → Cache V → Option (Bool × Cache V)}

theorem QuerySound.scan (hquery : QuerySound system query)
    (hpending : ∀ w ∈ pending, system.assumable w = true) {result : Bool}
    (items : List (Option V)) (cache : Cache V) (hsound : system.Sound pending cache)
    (hscan : scan query items cache = some (result, next)) :
    system.Sound pending next ∧ positives cache ⊆ positives next ∧
      if result then ∀ item ∈ items, ∃ w ∈ positives next, item = some w
      else ∃ item ∈ items, Fails next item := by
  induction items generalizing cache with
  | nil =>
      cases hscan
      exact ⟨hsound, subset_refl _, by simp⟩
  | cons item items ih =>
      cases item with
      | none =>
          cases hscan
          exact ⟨hsound, subset_refl _, none, List.mem_cons_self, .inl rfl⟩
      | some v =>
          unfold ConjunctiveSystem.scan at hscan
          split at hscan
          · cases hscan
          next middle hv =>
            cases hscan
            obtain ⟨hnext, hgrows, hresult⟩ :=
              hquery pending v cache _ false hpending hsound hv
            exact ⟨hnext, hgrows, some v, List.mem_cons_self, .inr ⟨v, rfl, hresult⟩⟩
          next middle hv =>
            obtain ⟨hmiddle, hgrows, hresult⟩ :=
              hquery pending v cache _ true hpending hsound hv
            obtain ⟨hnext, hgrows', hrest⟩ := ih middle hmiddle hscan
            refine ⟨hnext, hgrows.trans hgrows', ?_⟩
            cases result with
            | true =>
                rw [if_pos rfl] at hrest ⊢
                exact List.forall_mem_cons.mpr
                  ⟨⟨v, hgrows' hresult, rfl⟩, hrest⟩
            | false =>
                obtain ⟨other, hother, hfails⟩ := hrest
                exact ⟨other, List.mem_cons_of_mem _ hother, hfails⟩

theorem Sound.not_mem_greatest (hsound : system.Sound pending cache) {v : V}
    {item : Option V} (hitem : item ∈ system.items v) (hfails : Fails cache item) :
    v ∉ system.greatest := by
  intro hmem
  obtain ⟨w, hw, rfl⟩ := ConjunctiveSystem.mem_greatest.mp hmem item hitem
  obtain hnone | ⟨other, heq, hfalse⟩ := hfails
  · cases hnone
  · cases heq
    exact hsound.falses w hfalse hw

theorem Sound.ne_true (hsound : system.Sound pending cache) {v : V}
    (hv : v ∉ pending) {item : Option V} (hitem : item ∈ system.items v)
    (hfails : Fails cache item) : cache v ≠ some true := by
  intro htrue
  obtain hmem | hfollows := hsound.trues v htrue
  · exact hv hmem
  · obtain ⟨w, hw, rfl⟩ := hfollows item hitem
    obtain hnone | ⟨other, heq, hfalse⟩ := hfails
    · cases hnone
    · cases heq
      rw [hw] at hfalse
      cases hfalse

variable [DecidableEq V]

/-- A positive result stays, unless it is set to a negative one. -/
theorem positives_update {v : V} {result : Bool}
    (hresult : result = true ∨ cache v ≠ some true) :
    positives cache ⊆ positives (Function.update cache v (some result)) := by
  intro w hw
  by_cases heq : w = v
  · obtain rfl | hnot := hresult
    · rw [heq]
      exact Function.update_self _ _ _
    · rw [heq] at hw
      exact (hnot hw).elim
  · exact (Function.update_of_ne heq _ _).trans hw

theorem Sound.update_true {v : V} {assumed : Set V} (hsound : system.Sound assumed cache)
    (hv : v ∈ pending ∨ system.Follows (positives cache) v)
    (hassumed : ∀ w ∈ assumed, w ∈ pending ∨ w = v) :
    system.Sound pending (Function.update cache v (some true)) := by
  have hgrows : positives cache ⊆ positives (Function.update cache v (some true)) :=
    positives_update (.inl rfl)
  have hself : v ∈ pending ∨
      system.Follows (positives (Function.update cache v (some true))) v :=
    hv.imp_right (·.mono hgrows)
  constructor
  · intro w hw
    by_cases heq : w = v
    · rw [heq]
      exact hself
    · rw [Function.update_of_ne heq] at hw
      obtain hmem | hfollows := hsound.trues w hw
      · obtain hpending | rfl := hassumed w hmem
        · exact .inl hpending
        · exact hself
      · exact .inr (hfollows.mono hgrows)
  · intro w hw
    have hne : w ≠ v := by
      rintro rfl
      rw [Function.update_self] at hw
      cases hw
    rw [Function.update_of_ne hne] at hw
    exact hsound.falses w hw

theorem Sound.update_false {v : V} (hsound : system.Sound pending cache)
    (hv : v ∉ system.greatest) (hnot : cache v ≠ some true) :
    system.Sound pending (Function.update cache v (some false)) := by
  have hgrows : positives cache ⊆ positives (Function.update cache v (some false)) :=
    positives_update (.inr hnot)
  constructor
  · intro w hw
    have hne : w ≠ v := by
      rintro rfl
      rw [Function.update_self] at hw
      cases hw
    rw [Function.update_of_ne hne] at hw
    exact (hsound.trues w hw).imp_right (·.mono hgrows)
  · intro w hw
    by_cases heq : w = v
    · rw [heq]
      exact hv
    · rw [Function.update_of_ne heq] at hw
      exact hsound.falses w hw

theorem search_sound (fuel : ℕ) : QuerySound system (system.search fuel) := by
  induction fuel with
  | zero =>
      intro pending v cache next result _ _ hsearch
      cases hsearch
  | succ fuel ih =>
      intro pending v cache next result hpending hsound hsearch
      unfold search at hsearch
      split at hsearch
      next cached hcached =>
        cases hsearch
        exact ⟨hsound, subset_refl _, hcached⟩
      next hnew =>
        have hnot : cache v ≠ some true := by
          rw [hnew]
          exact nofun
        split at hsearch
        next hassumable =>
          -- The unknown is assumed to hold while its items are searched.
          have hassumed : system.Sound (insert v pending)
              (Function.update cache v (some true)) :=
            hsound.update_true (.inl (Set.mem_insert v pending))
              fun w hw => .inl (Set.mem_insert_of_mem v hw)
          have hpending' : ∀ w ∈ insert v pending, system.assumable w = true := by
            intro w hw
            obtain rfl | hmem := Set.mem_insert_iff.mp hw
            · exact hassumable
            · exact hpending w hmem
          obtain ⟨⟨scanned, checked⟩, hscan, hresult⟩ := Option.map_eq_some_iff.mp hsearch
          cases hresult
          obtain ⟨hchecked, hgrows, hitems⟩ := ih.scan hpending' _ _ hassumed hscan
          cases result with
          | true =>
              refine ⟨hchecked.update_true (.inr hitems) ?_, ?_, Function.update_self _ _ _⟩
              · exact fun w hw => (Set.mem_insert_iff.mp hw).symm
              · exact (positives_update (.inl rfl)).trans
                  (hgrows.trans (positives_update (.inl rfl)))
          | false =>
              obtain ⟨item, hitem, hfails⟩ := hitems
              exact ⟨hsound.update_false (hchecked.not_mem_greatest hitem hfails) hnot,
                positives_update (.inr hnot), Function.update_self _ _ _⟩
        next hassumable =>
          have hv : v ∉ pending := fun hmem => hassumable (hpending v hmem)
          obtain ⟨⟨scanned, middle⟩, hscan, hresult⟩ := Option.map_eq_some_iff.mp hsearch
          cases hresult
          obtain ⟨hmiddle, hgrows, hitems⟩ := ih.scan hpending _ _ hsound hscan
          cases result with
          | true =>
              exact ⟨hmiddle.update_true (.inr hitems) (fun w hw => .inl hw),
                hgrows.trans (positives_update (.inl rfl)), Function.update_self _ _ _⟩
          | false =>
              obtain ⟨item, hitem, hfails⟩ := hitems
              have hne := hmiddle.ne_true hv hitem hfails
              exact ⟨hmiddle.update_false (hmiddle.not_mem_greatest hitem hfails) hne,
                hgrows.trans (positives_update (.inr hne)), Function.update_self _ _ _⟩

end Correctness

section Termination

variable {system} {cache next : Cache V} {nodes : Set V} {assumed : Finset V}
  {rank : V → ℕ} {bound : ℕ}

/-- The unknowns of a finite search: those that may be assumed are in a finite set, and
the dependences between the other ones are bounded. -/
structure Ranked (system : ConjunctiveSystem V) (nodes : Set V) (assumed : Finset V)
    (rank : V → ℕ) (bound : ℕ) : Prop where
  closed : ∀ v ∈ nodes, ∀ w, some w ∈ system.items v → w ∈ nodes
  mem_assumed : ∀ v ∈ nodes, system.assumable v = true → v ∈ assumed
  rank_lt : ∀ v ∈ nodes, system.assumable v = false →
    ∀ w, some w ∈ system.items v → system.assumable w = false → rank w < rank v
  rank_le : ∀ v ∈ nodes, rank v ≤ bound

/-- Every result stays in the cache. -/
def Caches (cache next : Cache V) : Prop :=
  ∀ v, cache v ≠ none → next v ≠ none

theorem scan_caches {query : V → Cache V → Option (Bool × Cache V)} {result : Bool}
    (hquery : ∀ v cache next result, query v cache = some (result, next) →
      Caches cache next)
    (items : List (Option V)) (cache : Cache V)
    (hscan : scan query items cache = some (result, next)) : Caches cache next := by
  induction items generalizing cache with
  | nil =>
      cases hscan
      exact fun _ hv => hv
  | cons item items ih =>
      cases item with
      | none =>
          cases hscan
          exact fun _ hv => hv
      | some v =>
          unfold scan at hscan
          split at hscan
          · cases hscan
          next middle hv =>
            cases hscan
            exact hquery v cache _ _ hv
          next middle hv =>
            intro w hw
            exact ih middle hscan w (hquery v cache _ _ hv w hw)

/-- Two queries that agree on the caches with some results scan alike. -/
theorem scan_congr {first second : V → Cache V → Option (Bool × Cache V)}
    {base : Cache V}
    (hcaches : ∀ v cache next result, first v cache = some (result, next) →
      Caches cache next)
    (hagree : ∀ v cache, Caches base cache → second v cache = first v cache)
    (items : List (Option V)) (cache : Cache V) (hbase : Caches base cache) :
    scan second items cache = scan first items cache := by
  induction items generalizing cache with
  | nil => rfl
  | cons item items ih =>
      cases item with
      | none => rfl
      | some v =>
          unfold scan
          rw [hagree v cache hbase]
          cases hfirst : first v cache with
          | none => rfl
          | some answer =>
              obtain ⟨result, next⟩ := answer
              cases result with
              | false => rfl
              | true =>
                  exact ih next fun w hw => hcaches v cache next true hfirst w (hbase w hw)

/-- The number of unknowns that can still be assumed. -/
def openCount (assumed : Finset V) (cache : Cache V) : ℕ :=
  (assumed.filter fun v => cache v = none).card

theorem openCount_le (hcaches : Caches cache next) :
    openCount assumed next ≤ openCount assumed cache := by
  refine Finset.card_le_card fun v hv => ?_
  rw [Finset.mem_filter] at hv ⊢
  refine ⟨hv.1, ?_⟩
  by_contra hnone
  exact hcaches v hnone hv.2

variable [DecidableEq V]

theorem update_caches (cache : Cache V) (v : V) (result : Bool) :
    Caches cache (Function.update cache v (some result)) := by
  intro w hw
  by_cases heq : w = v
  · rw [heq, Function.update_self]
    exact nofun
  · rwa [Function.update_of_ne heq]

theorem search_caches (fuel : ℕ) (v : V) (cache next : Cache V) (result : Bool)
    (hsearch : system.search fuel v cache = some (result, next)) :
    Caches cache next := by
  induction fuel generalizing v cache next result with
  | zero => cases hsearch
  | succ fuel ih =>
      unfold search at hsearch
      split at hsearch
      next cached hcached =>
        cases hsearch
        exact fun _ hv => hv
      next hnew =>
        split at hsearch
        next hassumable =>
          obtain ⟨⟨scanned, checked⟩, hscan, hresult⟩ := Option.map_eq_some_iff.mp hsearch
          cases hresult
          intro w hw
          refine update_caches _ _ _ w ?_
          cases result with
          | true => exact scan_caches ih _ _ hscan w (update_caches _ _ _ w hw)
          | false => exact hw
        next hassumable =>
          obtain ⟨⟨scanned, middle⟩, hscan, hresult⟩ := Option.map_eq_some_iff.mp hsearch
          cases hresult
          intro w hw
          exact update_caches _ _ _ w (scan_caches ih _ _ hscan w hw)

theorem openCount_update_lt {v : V} (hv : v ∈ assumed) (hnew : cache v = none)
    (result : Bool) :
    openCount assumed (Function.update cache v (some result)) <
      openCount assumed cache := by
  refine Finset.card_lt_card ?_
  rw [Finset.ssubset_iff_of_subset]
  · refine ⟨v, Finset.mem_filter.mpr ⟨hv, hnew⟩, ?_⟩
    rw [Finset.mem_filter, Function.update_self]
    exact nofun
  · intro w hw
    rw [Finset.mem_filter] at hw ⊢
    refine ⟨hw.1, ?_⟩
    by_contra hnone
    exact update_caches cache v result w hnone hw.2

/-- A bound on the depth of the search for an unknown. -/
def depth (system : ConjunctiveSystem V) (assumed : Finset V) (rank : V → ℕ)
    (bound : ℕ) (v : V) (cache : Cache V) : ℕ :=
  openCount assumed cache * (bound + 2) +
    if system.assumable v then 0 else rank v + 1

theorem scan_returns {fuel limit : ℕ}
    (hsearch : ∀ w ∈ nodes, ∀ cache, system.depth assumed rank bound w cache < fuel →
      ∃ result, system.search fuel w cache = some result)
    (items : List (Option V))
    (hitems : ∀ w, some w ∈ items → w ∈ nodes ∧
      limit * (bound + 2) + (if system.assumable w then 0 else rank w + 1) < fuel)
    (cache : Cache V) (hlimit : openCount assumed cache ≤ limit) :
    ∃ result, scan (system.search fuel) items cache = some result := by
  induction items generalizing cache with
  | nil => exact ⟨_, rfl⟩
  | cons item items ih =>
      cases item with
      | none => exact ⟨_, rfl⟩
      | some v =>
          obtain ⟨hv, hfuel⟩ := hitems v List.mem_cons_self
          have hdepth : system.depth assumed rank bound v cache < fuel :=
            (Nat.add_le_add_right (Nat.mul_le_mul_right _ hlimit) _).trans_lt hfuel
          obtain ⟨⟨result, next⟩, hresult⟩ := hsearch v hv cache hdepth
          cases result with
          | false => exact ⟨(false, next), by simp [scan, hresult]⟩
          | true =>
              have hnext : openCount assumed next ≤ openCount assumed cache :=
                openCount_le (search_caches fuel v cache next true hresult)
              obtain ⟨rest, hrest⟩ := ih
                (fun w hw => hitems w (List.mem_cons_of_mem _ hw)) next
                (hnext.trans hlimit)
              exact ⟨rest, by simp [scan, hresult, hrest]⟩

/-- The search returns if its depth is below the fuel. -/
theorem search_returns (hranked : system.Ranked nodes assumed rank bound) (fuel : ℕ) :
    ∀ v ∈ nodes, ∀ cache, system.depth assumed rank bound v cache < fuel →
      ∃ result, system.search fuel v cache = some result := by
  induction fuel with
  | zero =>
      intro v _ cache hdepth
      exact (Nat.not_lt_zero _ hdepth).elim
  | succ fuel ih =>
      intro v hv cache hdepth
      unfold depth at hdepth
      unfold search
      split
      · exact ⟨_, rfl⟩
      next hnew =>
        split
        next hassumable =>
          rw [if_pos hassumable] at hdepth
          -- One unknown less can be assumed for the items.
          have hopen := openCount_update_lt (hranked.mem_assumed v hv hassumable) hnew true
          obtain ⟨limit, hlimit⟩ : ∃ limit, openCount assumed cache = limit + 1 :=
            ⟨openCount assumed cache - 1, by omega⟩
          have hitems : ∀ w, some w ∈ system.items v → w ∈ nodes ∧
              limit * (bound + 2) + (if system.assumable w then 0 else rank w + 1) <
                fuel := by
            intro w hw
            have hmem := hranked.closed v hv w hw
            have hrank := hranked.rank_le w hmem
            rw [hlimit, Nat.succ_mul] at hdepth
            refine ⟨hmem, ?_⟩
            split <;> omega
          obtain ⟨answer, hscan⟩ :=
            scan_returns ih (system.items v) hitems (Function.update cache v (some true))
              (by omega)
          rw [hscan]
          exact ⟨_, rfl⟩
        next hassumable =>
          rw [if_neg hassumable] at hdepth
          have hitems : ∀ w, some w ∈ system.items v → w ∈ nodes ∧
              openCount assumed cache * (bound + 2) +
                (if system.assumable w then 0 else rank w + 1) < fuel := by
            intro w hw
            refine ⟨hranked.closed v hv w hw, ?_⟩
            split
            next => omega
            next hother =>
              have hrank := hranked.rank_lt v hv (by simpa using hassumable) w hw
                (by simpa using hother)
              omega
          obtain ⟨answer, hscan⟩ :=
            scan_returns ih (system.items v) hitems cache (le_refl _)
          rw [hscan]
          exact ⟨_, rfl⟩

end Termination

section Results

variable [DecidableEq V] {system} {cache : Cache V} {nodes : Set V} {assumed : Finset V}
  {rank : V → ℕ} {bound fuel : ℕ}

theorem search_greatest (hranked : system.Ranked nodes assumed rank bound)
    (hfuel : assumed.card * (bound + 2) + bound + 1 < fuel)
    (hsound : system.Sound ∅ cache) {v : V} (hv : v ∈ nodes) :
    ∃ result next, system.search fuel v cache = some (result, next) ∧
      system.Sound ∅ next ∧ (result = true ↔ v ∈ system.greatest) := by
  have hdepth : system.depth assumed rank bound v cache < fuel := by
    have hopen : openCount assumed cache ≤ assumed.card := Finset.card_filter_le _ _
    have hmul := Nat.mul_le_mul_right (bound + 2) hopen
    have hrank := hranked.rank_le v hv
    unfold depth
    split <;> omega
  obtain ⟨⟨result, next⟩, hsearch⟩ := search_returns hranked fuel v hv cache hdepth
  obtain ⟨hnext, _, hresult⟩ :=
    search_sound fuel ∅ v cache next result (fun _ hmem => hmem.elim) hsound hsearch
  exact ⟨result, next, hsearch, hnext, hnext.mem_greatest_iff hresult⟩

open Classical in
/-- Any sequence of searches has the results of the greatest solution. -/
theorem searchAll_greatest (hranked : system.Ranked nodes assumed rank bound)
    (hfuel : assumed.card * (bound + 2) + bound + 1 < fuel)
    (vs : List V) (hvs : ∀ v ∈ vs, v ∈ nodes) (cache : Cache V)
    (hsound : system.Sound ∅ cache) :
    ∃ next, system.searchAll fuel vs cache =
        some (vs.map fun v => decide (v ∈ system.greatest), next) ∧
      system.Sound ∅ next := by
  induction vs generalizing cache with
  | nil => exact ⟨cache, rfl, hsound⟩
  | cons v vs ih =>
      obtain ⟨result, middle, hsearch, hmiddle, hresult⟩ :=
        search_greatest hranked hfuel hsound (hvs v List.mem_cons_self)
      obtain ⟨next, hrest, hnext⟩ :=
        ih (fun w hw => hvs w (List.mem_cons_of_mem _ hw)) middle hmiddle
      have hdecide : result = decide (v ∈ system.greatest) := by
        rw [Bool.eq_iff_iff, hresult, decide_eq_true_iff]
      refine ⟨next, ?_, hnext⟩
      rw [searchAll, hsearch, Option.bind_eq_bind, Option.bind_some]
      simp only [hrest, List.map_cons, hdecide]
      rfl

end Results

end ConjunctiveSystem

end Pocl
