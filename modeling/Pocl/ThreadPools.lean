import Mathlib.Logic.Function.Basic
import Mathlib.Tactic.Common

/-!
# Threads over a shared state

A schedule says which thread takes the next step.  A thread that has no step leaves the pool as
it is.  One pool simulates another if the steps of its threads can be followed thread by thread;
a step may be followed by none, and one step may take several to be followed.
-/

namespace Pocl

structure ThreadPool (ι T S : Type*) where
  threads : ι → T
  shared : S

namespace ThreadPool

variable {ι T T' S S' : Type*} [DecidableEq ι]

def step (next : T → S → Option (T × S)) (pool : ThreadPool ι T S) (i : ι) :
    ThreadPool ι T S :=
  match next (pool.threads i) pool.shared with
  | none => pool
  | some (thread, shared) => ⟨Function.update pool.threads i thread, shared⟩

def run (next : T → S → Option (T × S)) (pool : ThreadPool ι T S) (schedule : List ι) :
    ThreadPool ι T S :=
  schedule.foldl (step next) pool

variable {next : T → S → Option (T × S)} {next' : T' → S' → Option (T' × S')}

theorem step_none {pool : ThreadPool ι T S} {i : ι}
    (hnext : next (pool.threads i) pool.shared = none) : step next pool i = pool := by
  simp only [step, hnext]

theorem step_some {pool : ThreadPool ι T S} {i : ι} {thread : T} {shared : S}
    (hnext : next (pool.threads i) pool.shared = some (thread, shared)) :
    step next pool i = ⟨Function.update pool.threads i thread, shared⟩ := by
  simp only [step, hnext]

theorem run_append (pool : ThreadPool ι T S) (first second : List ι) :
    run next pool (first ++ second) = run next (run next pool first) second :=
  List.foldl_append

/-- What every step of a thread keeps, of the thread and of the shared state, holds after a run. -/
theorem run_keeps {inv : T → Prop} {invShared : S → Prop}
    (hkeeps : ∀ thread shared thread' shared', inv thread → invShared shared →
      next thread shared = some (thread', shared') → inv thread' ∧ invShared shared')
    (schedule : List ι) {pool : ThreadPool ι T S}
    (hthreads : ∀ i, inv (pool.threads i)) (hshared : invShared pool.shared) :
    (∀ i, inv ((run next pool schedule).threads i)) ∧
      invShared (run next pool schedule).shared := by
  induction schedule generalizing pool with
  | nil => exact ⟨hthreads, hshared⟩
  | cons i schedule ih =>
      apply @ih (step next pool i)
      · intro j
        cases hnext : next (pool.threads i) pool.shared with
        | none => rw [step_none hnext]; exact hthreads j
        | some result =>
            rw [step_some hnext]
            simp only [Function.update_apply]
            split
            · exact (hkeeps _ _ _ _ (hthreads i) hshared hnext).1
            · exact hthreads j
      · cases hnext : next (pool.threads i) pool.shared with
        | none => rw [step_none hnext]; exact hshared
        | some result =>
            rw [step_some hnext]
            exact (hkeeps _ _ _ _ (hthreads i) hshared hnext).2

section Simulation

variable (related : T → T' → Prop) (relatedShared : S → S' → Prop)

structure Related (pool : ThreadPool ι T S) (pool' : ThreadPool ι T' S') : Prop where
  threads : ∀ i, related (pool.threads i) (pool'.threads i)
  shared : relatedShared pool.shared pool'.shared

variable {related relatedShared}

theorem Related.update {pool : ThreadPool ι T S} {pool' : ThreadPool ι T' S'} {thread : T}
    {thread' : T'} {shared : S} {shared' : S'}
    (hpools : Related related relatedShared pool pool') (i : ι)
    (hthread : related thread thread') (hshared : relatedShared shared shared') :
    Related related relatedShared ⟨Function.update pool.threads i thread, shared⟩
      ⟨Function.update pool'.threads i thread', shared'⟩ := by
  constructor
  · intro j
    by_cases hj : j = i
    · subst hj
      simpa using hthread
    · simpa [hj] using hpools.threads j
  · exact hshared

/-- Several steps of one thread. -/
inductive Steps (next : T → S → Option (T × S)) : T → S → T → S → Prop
  | refl (thread : T) (shared : S) : Steps next thread shared thread shared
  | head {thread middle last : T} {shared middleShared lastShared : S} :
      next thread shared = some (middle, middleShared) →
      Steps next middle middleShared last lastShared →
      Steps next thread shared last lastShared

theorem Steps.tail {thread middle last : T} {shared middleShared lastShared : S}
    (hsteps : Steps next thread shared middle middleShared)
    (hnext : next middle middleShared = some (last, lastShared)) :
    Steps next thread shared last lastShared := by
  induction hsteps with
  | refl thread shared => exact .head hnext (.refl _ _)
  | head hfirst _ ih => exact .head hfirst (ih hnext)

theorem run_of_steps {thread thread' : T} {shared shared' : S}
    (hsteps : Steps next thread shared thread' shared') (i : ι) {pool : ThreadPool ι T S}
    (hthread : pool.threads i = thread) (hshared : pool.shared = shared) :
    ∃ schedule : List ι, run next pool schedule =
      ⟨Function.update pool.threads i thread', shared'⟩ := by
  induction hsteps generalizing pool with
  | refl thread shared =>
      refine ⟨[], ?_⟩
      rw [← hthread, ← hshared, Function.update_eq_self]
      rfl
  | @head thread middle last shared middleShared lastShared hnext _ ih =>
      obtain ⟨schedule, hrun⟩ := @ih ⟨Function.update pool.threads i middle, middleShared⟩
        (Function.update_self ..) rfl
      rw [Function.update_idem] at hrun
      have hstep : step next pool i = ⟨Function.update pool.threads i middle, middleShared⟩ := by
        apply step_some
        rw [hthread, hshared]
        exact hnext
      refine ⟨i :: schedule, ?_⟩
      rw [run, List.foldl_cons, hstep]
      exact hrun

/-- Each step is followed by several steps of the same thread, or by none. -/
def Follows (next : T → S → Option (T × S)) (next' : T' → S' → Option (T' × S'))
    (related : T → T' → Prop) (relatedShared : S → S' → Prop) : Prop :=
  ∀ thread shared thread' shared' after afterShared,
    related thread thread' → relatedShared shared shared' →
    next thread shared = some (after, afterShared) →
    ∃ after' afterShared', Steps next' thread' shared' after' afterShared' ∧
      related after after' ∧ relatedShared afterShared afterShared'

theorem run_follows (hfollows : Follows next next' related relatedShared) (schedule : List ι)
    {pool : ThreadPool ι T S} {pool' : ThreadPool ι T' S'}
    (hpools : Related related relatedShared pool pool') :
    ∃ schedule' : List ι,
      Related related relatedShared (run next pool schedule) (run next' pool' schedule') := by
  induction schedule generalizing pool pool' with
  | nil => exact ⟨[], hpools⟩
  | cons i schedule ih =>
      cases hnext : next (pool.threads i) pool.shared with
      | none =>
          obtain ⟨schedule', hrun⟩ := ih hpools
          refine ⟨schedule', ?_⟩
          rw [run, List.foldl_cons, step_none hnext]
          exact hrun
      | some result =>
          obtain ⟨after', afterShared', hsteps, hafter, hafterShared⟩ :=
            hfollows _ _ _ _ _ _ (hpools.threads i) hpools.shared hnext
          obtain ⟨first, hfirst⟩ := run_of_steps hsteps i (rfl : pool'.threads i = _) rfl
          obtain ⟨second, hsecond⟩ := ih (hpools.update i hafter hafterShared)
          refine ⟨first ++ second, ?_⟩
          rw [run_append, hfirst, run, List.foldl_cons, step_some hnext]
          exact hsecond

end Simulation

end ThreadPool

end Pocl
