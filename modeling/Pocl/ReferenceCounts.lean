import Pocl.RuntimeObjectEffects
import Mathlib.Tactic

/-!
# Counters and references

The references that there are on the objects of one table.  The counter of an
object is never below its references, so that an object is not freed while there
is one.  Under the strict reading the counter is the number of references, and an
object with none has been freed.
-/

namespace Pocl

namespace RuntimeObjects

structure Counts {α : Type} (strict : Prop) (table : Table (Object α))
    (refs : ℕ → ℤ) : Prop where
  nonneg : ∀ id, 0 ≤ refs id
  le_count : ∀ id object, table.get id = some object → refs id ≤ object.refcount
  exact : strict → ∀ id object, table.get id = some object →
    object.refcount = refs id ∧ 0 < refs id
  dead : ∀ id, table.get id = none → refs id = 0

theorem hold_apply (held : ℕ → ℤ) (id other : ℕ) (change : ℤ) :
    Session.hold held id change other = held other + if other = id then change else 0 := by
  unfold Session.hold
  by_cases heq : other = id
  · subst other
    rw [Function.update_self, if_pos rfl]
  · rw [Function.update_of_ne heq, if_neg heq, add_zero]

namespace Counts

variable {α : Type} {strict : Prop} {table after : Table (Object α)} {refs : ℕ → ℤ}
  {id : ℕ} {object : Object α}

theorem empty : Counts strict (Table.empty : Table (Object α)) fun _ => 0 := by
  refine ⟨fun _ => le_refl _, ?_, ?_, fun _ _ => rfl⟩
  · intro id object hget
    cases hget
  · intro _ id object hget
    cases hget

theorem live (hcounts : Counts strict table refs) (hrefs : 0 < refs id) :
    ∃ object, table.get id = some object := by
  cases hget : table.get id with
  | none => exact absurd (hcounts.dead id hget) (ne_of_gt hrefs)
  | some object => exact ⟨object, rfl⟩

theorem congr {other : ℕ → ℤ} (hcounts : Counts strict table refs)
    (hother : ∀ id, other id = refs id) : Counts strict table other := by
  have heq : other = refs := funext hother
  rw [heq]
  exact hcounts

/-- Only the counters matter. -/
theorem congr_table (hcounts : Counts strict table refs)
    (hview : after.view Object.refcount = table.view Object.refcount) :
    Counts strict after refs := by
  have hsome : ∀ {id object}, after.get id = some object →
      ∃ old, table.get id = some old ∧ object.refcount = old.refcount := by
    intro id object hget
    have hold : table.view Object.refcount id = some object.refcount := by
      rw [← hview, Table.view_eq hget]
    obtain ⟨old, hold, heq⟩ := Option.map_eq_some_iff.mp hold
    exact ⟨old, hold, heq.symm⟩
  refine ⟨hcounts.nonneg, ?_, ?_, ?_⟩
  · intro id object hget
    obtain ⟨old, hold, heq⟩ := hsome hget
    rw [heq]
    exact hcounts.le_count id old hold
  · intro hstrict id object hget
    obtain ⟨old, hold, heq⟩ := hsome hget
    rw [heq]
    exact hcounts.exact hstrict id old hold
  · intro id hget
    apply hcounts.dead
    have hnone : table.view Object.refcount id = none := by
      rw [← hview]
      unfold Table.view
      rw [hget]
      rfl
    exact Option.map_eq_none_iff.mp hnone

/-- The counter and the references of one object change together. -/
theorem count {change : ℤ} (hcounts : Counts strict table refs)
    (hget : table.get id = some object) (hnonneg : 0 ≤ refs id + change)
    (hstrict : strict → 0 < refs id + change) :
    Counts strict (table.modify id (Object.count change))
      (Session.hold refs id change) := by
  unfold Session.hold
  refine ⟨fun other => ?_, fun other found hfound => ?_, fun hs other found hfound => ?_,
    fun other hfound => ?_⟩
  · by_cases heq : other = id
    · subst other
      rw [Function.update_self]
      exact hnonneg
    · rw [Function.update_of_ne heq]
      exact hcounts.nonneg other
  · rw [Table.modify_get_eq_some] at hfound
    rcases hfound with ⟨rfl, old, hold, rfl⟩ | ⟨hne, hfound⟩
    · rw [Function.update_self]
      exact add_le_add_left (hcounts.le_count _ old hold) change
    · rw [Function.update_of_ne hne]
      exact hcounts.le_count other found hfound
  · rw [Table.modify_get_eq_some] at hfound
    rcases hfound with ⟨rfl, old, hold, rfl⟩ | ⟨hne, hfound⟩
    · rw [Function.update_self]
      refine ⟨?_, hstrict hs⟩
      change old.refcount + change = _
      rw [(hcounts.exact hs _ old hold).1]
    · rw [Function.update_of_ne hne]
      exact hcounts.exact hs other found hfound
  · by_cases heq : other = id
    · subst other
      rw [Table.modify_get_map, hget] at hfound
      cases hfound
    · rw [Table.modify_get_of_ne _ _ heq] at hfound
      rw [Function.update_of_ne heq]
      exact hcounts.dead other hfound

theorem retain (hcounts : Counts strict table refs)
    (hget : table.get id = some object) :
    Counts strict (table.modify id (Object.count 1))
      (Session.hold refs id 1) := by
  have hnonneg := hcounts.nonneg id
  exact hcounts.count hget (by omega) fun _ => by omega

theorem drop (hcounts : Counts strict table refs)
    (hget : table.get id = some object) (hrefs : 0 < refs id)
    (hstrict : strict → object.refcount ≠ 1) :
    Counts strict (table.modify id (Object.count (-1)))
      (Session.hold refs id (-1)) := by
  refine hcounts.count hget (by omega) fun hs => ?_
  have hexact := hcounts.exact hs id object hget
  have hne := hstrict hs
  omega

/-- The last reference is given back. -/
theorem free (hcounts : Counts strict table refs)
    (hget : table.get id = some object) (hrefs : 0 < refs id)
    (hcount : object.refcount = 1) :
    Counts strict ((table.modify id (Object.count (-1))).free id)
      (Session.hold refs id (-1)) := by
  have hle := hcounts.le_count id object hget
  have hone : refs id + -1 = 0 := by omega
  have hother : ∀ {other found},
      ((table.modify id (Object.count (-1))).free id).get other = some found →
        other ≠ id ∧ table.get other = some found := by
    intro other found hfound
    rw [Table.free_get_eq_some] at hfound
    refine ⟨hfound.1, ?_⟩
    rw [← Table.modify_get_of_ne _ (Object.count (-1)) hfound.1]
    exact hfound.2
  unfold Session.hold
  refine ⟨fun other => ?_, fun other found hfound => ?_, fun hs other found hfound => ?_,
    fun other hfound => ?_⟩
  · by_cases heq : other = id
    · subst other
      rw [Function.update_self, hone]
    · rw [Function.update_of_ne heq]
      exact hcounts.nonneg other
  · rw [Function.update_of_ne (hother hfound).1]
    exact hcounts.le_count other found (hother hfound).2
  · rw [Function.update_of_ne (hother hfound).1]
    exact hcounts.exact hs other found (hother hfound).2
  · by_cases heq : other = id
    · subst other
      rw [Function.update_self, hone]
    · rw [Table.free_get_of_ne _ heq, Table.modify_get_of_ne _ _ heq] at hfound
      rw [Function.update_of_ne heq]
      exact hcounts.dead other hfound

/-- A new object, with one reference. -/
theorem alloc (hcounts : Counts strict table refs) (hpos : 1 ≤ object.refcount)
    (hstrict : strict → object.refcount = 1) :
    Counts strict (table.alloc object) (Session.hold refs table.next 1) := by
  have hzero : refs table.next + 1 = 1 := by
    rw [hcounts.dead table.next table.get_next, zero_add]
  unfold Session.hold
  rw [hzero]
  refine ⟨fun other => ?_, fun other found hfound => ?_, fun hs other found hfound => ?_,
    fun other hfound => ?_⟩
  · by_cases heq : other = table.next
    · subst other
      rw [Function.update_self]
      exact zero_le_one
    · rw [Function.update_of_ne heq]
      exact hcounts.nonneg other
  · rcases table.alloc_get_eq_some.mp hfound with ⟨rfl, rfl⟩ | hold
    · rw [Function.update_self]
      exact hpos
    · rw [Function.update_of_ne (ne_of_lt (table.lt_next hold))]
      exact hcounts.le_count other found hold
  · rcases table.alloc_get_eq_some.mp hfound with ⟨rfl, rfl⟩ | hold
    · rw [Function.update_self]
      exact ⟨hstrict hs, zero_lt_one⟩
    · rw [Function.update_of_ne (ne_of_lt (table.lt_next hold))]
      exact hcounts.exact hs other found hold
  · by_cases heq : other = table.next
    · subst other
      rw [Table.alloc_get_self] at hfound
      cases hfound
    · rw [table.alloc_get_of_ne object heq] at hfound
      rw [Function.update_of_ne heq]
      exact hcounts.dead other hfound

end Counts

end RuntimeObjects

end Pocl
