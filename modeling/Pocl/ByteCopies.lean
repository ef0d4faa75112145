import Mathlib.Data.List.Nodup
import Mathlib.Logic.Function.Basic

/-!
# Copies within a memory

A memory is a function on addresses.  A list of pairs of addresses is copied in its order.
When no address that is read is also written, the order does not matter for what is read.
-/

namespace Pocl.ByteCopies

universe u v

variable {Address : Type u} {Content : Type v} [DecidableEq Address]

/-- The content of each second address is written to the first one. -/
def copyAll (pairs : List (Address × Address)) (memory : Address → Content) :
    Address → Content :=
  pairs.foldl (fun memory pair => Function.update memory pair.1 (memory pair.2)) memory

/-- No address is read that is also written. -/
def Apart (pairs : List (Address × Address)) : Prop :=
  ∀ written ∈ pairs, ∀ read ∈ pairs, written.1 ≠ read.2

variable {pairs first second : List (Address × Address)} {memory : Address → Content}
  {address : Address}

omit [DecidableEq Address] in
theorem Apart.of_subset (hapart : Apart pairs) (hsubset : first ⊆ pairs) : Apart first :=
  fun written hwritten read hread =>
    hapart written (hsubset hwritten) read (hsubset hread)

theorem copyAll_cons (pair : Address × Address) :
    copyAll (pair :: pairs) memory =
      copyAll pairs (Function.update memory pair.1 (memory pair.2)) := rfl

theorem copyAll_append :
    copyAll (first ++ second) memory = copyAll second (copyAll first memory) :=
  List.foldl_append

theorem copyAll_of_notMem (hnot : ∀ pair ∈ pairs, pair.1 ≠ address) :
    copyAll pairs memory address = memory address := by
  induction pairs generalizing memory with
  | nil => rfl
  | cons pair pairs ih =>
      obtain ⟨hne, hrest⟩ := List.forall_mem_cons.mp hnot
      rw [copyAll_cons, ih hrest]
      exact Function.update_of_ne hne.symm _ _

omit [DecidableEq Address] in
theorem head_eq_of_not_later
    {pair : Address × Address} (hmem : ∃ found ∈ pair :: pairs, found.1 = address)
    (hlater : ¬ ∃ found ∈ pairs, found.1 = address) : pair.1 = address := by
  obtain ⟨found, hfound, heq⟩ := hmem
  rcases List.mem_cons.mp hfound with rfl | htail
  · exact heq
  · exact absurd ⟨found, htail, heq⟩ hlater

/-- Each written address has the content of one of the addresses it is paired with. -/
theorem exists_copyAll_eq
    (memory : Address → Content) (hapart : Apart pairs)
    (hmem : ∃ pair ∈ pairs, pair.1 = address) :
    ∃ pair ∈ pairs, pair.1 = address ∧ copyAll pairs memory address = memory pair.2 := by
  induction pairs generalizing memory with
  | nil => simp at hmem
  | cons pair pairs ih =>
      have hrest : Apart pairs := hapart.of_subset (List.subset_cons_self _ _)
      by_cases hlater : ∃ pair ∈ pairs, pair.1 = address
      · obtain ⟨last, hlast, heq, hcopy⟩ :=
          ih (Function.update memory pair.1 (memory pair.2)) hrest hlater
        refine ⟨last, List.mem_cons_of_mem _ hlast, heq, ?_⟩
        have hne : pair.1 ≠ last.2 :=
          hapart pair List.mem_cons_self last (List.mem_cons_of_mem _ hlast)
        rw [copyAll_cons, hcopy]
        exact Function.update_of_ne hne.symm _ _
      · have hhead := head_eq_of_not_later hmem hlater
        refine ⟨pair, List.mem_cons_self, hhead, ?_⟩
        rw [copyAll_cons, copyAll_of_notMem fun other hother heq => hlater ⟨other, hother, heq⟩,
          hhead]
        exact Function.update_self _ _ _

theorem copyAll_of_mem
    (hnodup : (pairs.map Prod.fst).Nodup) (hapart : Apart pairs) {pair : Address × Address}
    (hmem : pair ∈ pairs) : copyAll pairs memory pair.1 = memory pair.2 := by
  obtain ⟨other, hother, heq, hcopy⟩ := exists_copyAll_eq memory hapart ⟨pair, hmem, rfl⟩
  rw [hcopy, List.inj_on_of_nodup_map hnodup hother hmem heq]

section Memories

variable {source target : Address → Content}

/-- The content of each second address of one memory is written to the first one of another
memory. -/
def moveAll (pairs : List (Address × Address)) (source target : Address → Content) :
    Address → Content :=
  pairs.foldl (fun target pair => Function.update target pair.1 (source pair.2)) target

theorem moveAll_cons (pair : Address × Address) :
    moveAll (pair :: pairs) source target =
      moveAll pairs source (Function.update target pair.1 (source pair.2)) := rfl

theorem moveAll_of_notMem (hnot : ∀ pair ∈ pairs, pair.1 ≠ address) :
    moveAll pairs source target address = target address := by
  induction pairs generalizing target with
  | nil => rfl
  | cons pair pairs ih =>
      obtain ⟨hne, hrest⟩ := List.forall_mem_cons.mp hnot
      rw [moveAll_cons, ih hrest]
      exact Function.update_of_ne hne.symm _ _

theorem moveAll_of_mem
    (hsame : ∀ pair ∈ pairs, pair.1 = pair.2) (hmem : ∃ pair ∈ pairs, pair.1 = address) :
    moveAll pairs source target address = source address := by
  induction pairs generalizing target with
  | nil => simp at hmem
  | cons pair pairs ih =>
      obtain ⟨hpair, hrest⟩ := List.forall_mem_cons.mp hsame
      by_cases hlater : ∃ pair ∈ pairs, pair.1 = address
      · exact ih hrest hlater
      · have hhead := head_eq_of_not_later hmem hlater
        rw [moveAll_cons, moveAll_of_notMem fun other hother heq => hlater ⟨other, hother, heq⟩,
          ← hpair, hhead]
        exact Function.update_self _ _ _

end Memories

end Pocl.ByteCopies
