import Mathlib.Data.Finset.Card
import Mathlib.Data.Finset.Range

/-!
# Tables of objects

The objects of one kind that have been allocated, by their identities.  A new
object gets an identity that no object had before, and the record of an object
that has been freed is gone.
-/

namespace Pocl

@[ext] structure Table (α : Type*) where
  get : ℕ → Option α
  next : ℕ
  bounded : ∀ id, next ≤ id → get id = none

namespace Table

variable {α : Type*}

def empty : Table α :=
  ⟨fun _ => none, 0, fun _ _ => rfl⟩

/-- A new object, with the identity `table.next`. -/
def alloc (table : Table α) (object : α) : Table α where
  get := Function.update table.get table.next (some object)
  next := table.next + 1
  bounded := by
    intro id hid
    have hlt : table.next < id := hid
    rw [Function.update_of_ne (ne_of_gt hlt)]
    exact table.bounded id (le_of_lt hlt)

/-- The record of an object is replaced, if there is one. -/
def modify (table : Table α) (id : ℕ) (change : α → α) : Table α where
  get := Function.update table.get id ((table.get id).map change)
  next := table.next
  bounded := by
    intro other hother
    by_cases heq : other = id
    · subst other
      rw [Function.update_self, table.bounded id hother]
      rfl
    · rw [Function.update_of_ne heq]
      exact table.bounded other hother

def free (table : Table α) (id : ℕ) : Table α where
  get := Function.update table.get id none
  next := table.next
  bounded := by
    intro other hother
    by_cases heq : other = id
    · subst other
      exact Function.update_self _ _ _
    · rw [Function.update_of_ne heq]
      exact table.bounded other hother

section Lookups

variable (table : Table α)

theorem lt_next {id : ℕ} {object : α} (hget : table.get id = some object) :
    id < table.next := by
  by_contra hnot
  rw [table.bounded id (Nat.le_of_not_lt hnot)] at hget
  cases hget

@[simp] theorem get_next : table.get table.next = none :=
  table.bounded table.next (le_refl _)

@[simp] theorem alloc_next (object : α) :
    (table.alloc object).next = table.next + 1 :=
  rfl

@[simp] theorem modify_next (id : ℕ) (change : α → α) :
    (table.modify id change).next = table.next :=
  rfl

@[simp] theorem free_next (id : ℕ) : (table.free id).next = table.next :=
  rfl

@[simp] theorem alloc_get_self (object : α) :
    (table.alloc object).get table.next = some object :=
  Function.update_self _ _ _

theorem alloc_get_of_ne {id : ℕ} (object : α) (hne : id ≠ table.next) :
    (table.alloc object).get id = table.get id :=
  Function.update_of_ne hne _ _

theorem alloc_get_of_some {id : ℕ} {object : α} (new : α)
    (hget : table.get id = some object) :
    (table.alloc new).get id = some object := by
  rw [table.alloc_get_of_ne new (ne_of_lt (table.lt_next hget)), hget]

theorem modify_get_map (id : ℕ) (change : α → α) :
    (table.modify id change).get id = (table.get id).map change :=
  Function.update_self _ _ _

theorem modify_get_self {id : ℕ} {object : α} (change : α → α)
    (hget : table.get id = some object) :
    (table.modify id change).get id = some (change object) := by
  rw [modify_get_map, hget]
  rfl

theorem modify_get_of_ne {id other : ℕ} (change : α → α) (hne : other ≠ id) :
    (table.modify id change).get other = table.get other :=
  Function.update_of_ne hne _ _

@[simp] theorem free_get_self (id : ℕ) : (table.free id).get id = none :=
  Function.update_self _ _ _

theorem free_get_of_ne {id other : ℕ} (hne : other ≠ id) :
    (table.free id).get other = table.get other :=
  Function.update_of_ne hne _ _

theorem alloc_get_eq_some {new object : α} {id : ℕ} :
    (table.alloc new).get id = some object ↔
      id = table.next ∧ object = new ∨ table.get id = some object := by
  by_cases heq : id = table.next
  · subst id
    simp [eq_comm]
  · simp [table.alloc_get_of_ne new heq, heq]

theorem modify_get_eq_some {change : α → α} {object : α} {id other : ℕ} :
    (table.modify id change).get other = some object ↔
      (other = id ∧ ∃ old, table.get id = some old ∧ object = change old) ∨
        other ≠ id ∧ table.get other = some object := by
  by_cases heq : other = id
  · subst other
    rw [modify_get_map, Option.map_eq_some_iff]
    simp [eq_comm]
  · simp [table.modify_get_of_ne change heq, heq]

theorem free_get_eq_some {object : α} {id other : ℕ} :
    (table.free id).get other = some object ↔
      other ≠ id ∧ table.get other = some object := by
  by_cases heq : other = id
  · subst other
    simp
  · simp [table.free_get_of_ne heq, heq]

theorem modify_id (id : ℕ) : table.modify id (fun object => object) = table := by
  refine Table.ext (funext fun other => ?_) rfl
  by_cases heq : other = id
  · subst other
    rw [modify_get_map, Option.map_id']
  · exact modify_get_of_ne _ _ heq

theorem modify_modify_of_ne {first second : ℕ} {change other : α → α}
    (hne : first ≠ second) :
    (table.modify first change).modify second other =
      (table.modify second other).modify first change := by
  refine Table.ext (funext fun id => ?_) rfl
  by_cases hfirst : id = first
  · subst id
    rw [modify_get_of_ne _ _ hne, modify_get_map, modify_get_map,
      modify_get_of_ne _ _ hne]
  · rw [modify_get_of_ne (table.modify second other) _ hfirst]
    by_cases hsecond : id = second
    · subst id
      rw [modify_get_map, modify_get_map, modify_get_of_ne _ _ hfirst]
    · rw [modify_get_of_ne _ _ hsecond, modify_get_of_ne _ _ hsecond,
        modify_get_of_ne _ _ hfirst]

end Lookups

section Views

variable {β : Type*} (table : Table α) (part : α → β)

/-- A part of every object. -/
def view (id : ℕ) : Option β :=
  (table.get id).map part

variable {table part}

theorem view_eq {id : ℕ} {object : α} (hget : table.get id = some object) :
    table.view part id = some (part object) := by
  unfold view
  rw [hget]
  rfl

theorem view_next : table.view part table.next = none := by
  unfold view
  rw [get_next]
  rfl

theorem view_alloc (object : α) :
    (table.alloc object).view part =
      Function.update (table.view part) table.next (some (part object)) := by
  funext id
  unfold view
  by_cases heq : id = table.next
  · subst id
    rw [alloc_get_self, Function.update_self]
    rfl
  · rw [table.alloc_get_of_ne object heq, Function.update_of_ne heq]

theorem view_modify {id : ℕ} {object : α} (change : α → α)
    (hget : table.get id = some object) :
    (table.modify id change).view part =
      Function.update (table.view part) id (some (part (change object))) := by
  funext other
  unfold view
  by_cases heq : other = id
  · subst other
    rw [table.modify_get_self change hget, Function.update_self]
    rfl
  · rw [table.modify_get_of_ne change heq, Function.update_of_ne heq]

theorem view_modify_same (id : ℕ) {change : α → α}
    (hchange : ∀ object, part (change object) = part object) :
    (table.modify id change).view part = table.view part := by
  funext other
  unfold view
  by_cases heq : other = id
  · subst other
    rw [table.modify_get_map, Option.map_map]
    congr 1
    funext object
    exact hchange object
  · rw [table.modify_get_of_ne change heq]

theorem view_free (id : ℕ) :
    (table.free id).view part = Function.update (table.view part) id none := by
  funext other
  unfold view
  by_cases heq : other = id
  · subst other
    rw [free_get_self, Function.update_self]
    rfl
  · rw [table.free_get_of_ne heq, Function.update_of_ne heq]

end Views

section Holders

variable (holds : α → Bool)

/-- The objects of a table for which a property holds. -/
def holders (table : Table α) : Finset ℕ :=
  (Finset.range table.next).filter fun id => (table.get id).any holds = true

theorem mem_holders {table : Table α} {id : ℕ} :
    id ∈ table.holders holds ↔
      ∃ object, table.get id = some object ∧ holds object = true := by
  unfold holders
  rw [Finset.mem_filter, Finset.mem_range]
  constructor
  · rintro ⟨_, hany⟩
    rwa [Option.any_eq_true] at hany
  · rintro ⟨object, hget, hholds⟩
    refine ⟨table.lt_next hget, ?_⟩
    rw [hget]
    exact hholds

variable {holds} {table : Table α} {id : ℕ} {object : α}

theorem next_not_mem_holders : table.next ∉ table.holders holds := by
  rw [mem_holders]
  rintro ⟨object, hget, _⟩
  rw [get_next] at hget
  cases hget

theorem card_holders_alloc :
    (((table.alloc object).holders holds).card : ℤ) =
      (table.holders holds).card + if holds object = true then 1 else 0 := by
  by_cases hholds : holds object = true
  · have hinsert : (table.alloc object).holders holds =
        insert table.next (table.holders holds) := by
      ext other
      rw [Finset.mem_insert, mem_holders, mem_holders]
      simp only [alloc_get_eq_some]
      constructor
      · rintro ⟨found, ⟨heq, _⟩ | hfound, hheld⟩
        · exact Or.inl heq
        · exact Or.inr ⟨found, hfound, hheld⟩
      · rintro (heq | ⟨found, hfound, hheld⟩)
        · exact ⟨object, Or.inl ⟨heq, rfl⟩, hholds⟩
        · exact ⟨found, Or.inr hfound, hheld⟩
    rw [hinsert, Finset.card_insert_of_notMem next_not_mem_holders, if_pos hholds]
    rfl
  · have hsame : (table.alloc object).holders holds = table.holders holds := by
      ext other
      rw [mem_holders, mem_holders]
      simp only [alloc_get_eq_some]
      constructor
      · rintro ⟨found, ⟨_, rfl⟩ | hfound, hheld⟩
        · exact absurd hheld hholds
        · exact ⟨found, hfound, hheld⟩
      · rintro ⟨found, hfound, hheld⟩
        exact ⟨found, Or.inr hfound, hheld⟩
    rw [hsame, if_neg hholds, Int.add_zero]

theorem holders_modify {change : α → α}
    (hchange : ∀ object, holds (change object) = holds object) :
    (table.modify id change).holders holds = table.holders holds := by
  ext other
  rw [mem_holders, mem_holders]
  by_cases heq : other = id
  · subst other
    cases hget : table.get id with
    | none =>
        simp [modify_get_eq_some, hget]
    | some object =>
        rw [table.modify_get_self change hget]
        simp [hchange]
  · rw [table.modify_get_of_ne change heq]

theorem card_holders_free (hget : table.get id = some object) :
    (((table.free id).holders holds).card : ℤ) =
      (table.holders holds).card - if holds object = true then 1 else 0 := by
  have herase : (table.free id).holders holds = (table.holders holds).erase id := by
    ext other
    rw [Finset.mem_erase, mem_holders, mem_holders]
    simp only [free_get_eq_some]
    constructor
    · rintro ⟨object, ⟨hne, hget⟩, hheld⟩
      exact ⟨hne, object, hget, hheld⟩
    · rintro ⟨hne, object, hget, hheld⟩
      exact ⟨object, ⟨hne, hget⟩, hheld⟩
  rw [herase]
  by_cases hholds : holds object = true
  · have hmem : id ∈ table.holders holds :=
      (mem_holders holds).mpr ⟨object, hget, hholds⟩
    have hpos : 0 < (table.holders holds).card := Finset.card_pos.mpr ⟨id, hmem⟩
    rw [Finset.card_erase_of_mem hmem, if_pos hholds]
    omega
  · have hnot : id ∉ table.holders holds := by
      rw [mem_holders]
      rintro ⟨found, hfound, hheld⟩
      rw [hget, Option.some.injEq] at hfound
      exact hholds (hfound ▸ hheld)
    rw [Finset.erase_eq_of_notMem hnot, if_neg hholds, Int.sub_zero]

theorem card_holders_pos (hget : table.get id = some object)
    (hholds : holds object = true) : 0 < ((table.holders holds).card : ℤ) := by
  have hmem : id ∈ table.holders holds := (mem_holders holds).mpr ⟨object, hget, hholds⟩
  exact_mod_cast Finset.card_pos.mpr ⟨id, hmem⟩

end Holders

end Table

end Pocl
