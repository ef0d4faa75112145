import Mathlib.Data.List.Nodup
import Mathlib.Tactic

/-!
# Intrusive singly linked lists

Every record carries a `next` pointer, and a list is given by a pointer to its
first record.  A function `fetch` reads the `next` field of a record; it is
undefined for a record that has been freed.  `IsSList` says which records a
pointer denotes.  Such a list is finite, so that no record is on it twice.

A record is taken out of a list with a pointer to the pointer that holds it.
-/

namespace Pocl

variable {ι : Type*} {fetch : ι → Option (Option ι)}

inductive IsSList (fetch : ι → Option (Option ι)) : Option ι → List ι → Prop
  | nil : IsSList fetch none []
  | cons {record : ι} {next : Option ι} {rest : List ι}
      (hfetch : fetch record = some next) (hrest : IsSList fetch next rest) :
      IsSList fetch (some record) (record :: rest)

namespace IsSList

theorem unique {head : Option ι} {first second : List ι}
    (hfirst : IsSList fetch head first) (hsecond : IsSList fetch head second) :
    first = second := by
  induction hfirst generalizing second with
  | nil =>
      cases hsecond
      rfl
  | cons hfetch _ ih =>
      cases hsecond with
      | cons hother hrest =>
          rw [hfetch, Option.some.injEq] at hother
          subst hother
          rw [ih hrest]

theorem head_eq {head : Option ι} {record : ι} {rest : List ι}
    (hlist : IsSList fetch head (record :: rest)) : head = some record := by
  cases hlist
  rfl

theorem drop {head : Option ι} {before after : List ι} {record : ι}
    (hlist : IsSList fetch head (before ++ record :: after)) :
    IsSList fetch (some record) (record :: after) := by
  induction before generalizing head with
  | nil =>
      cases hlist with
      | cons hfetch hrest => exact .cons hfetch hrest
  | cons first rest ih =>
      cases hlist with
      | cons _ hrest => exact ih hrest

theorem nodup {head : Option ι} {records : List ι}
    (hlist : IsSList fetch head records) : records.Nodup := by
  induction hlist with
  | nil => exact List.nodup_nil
  | @cons record next rest hfetch hrest ih =>
      refine List.nodup_cons.mpr ⟨fun hmem => ?_, ih⟩
      -- The list from the second occurrence on would be longer than itself.
      obtain ⟨before, after, rfl⟩ := List.append_of_mem hmem
      have hwhole := IsSList.cons hfetch hrest
      have heq := hwhole.unique hrest.drop
      have hlength := congrArg List.length heq
      simp only [List.length_cons, List.length_append] at hlength
      omega

theorem live {head : Option ι} {records : List ι} {record : ι}
    (hlist : IsSList fetch head records) (hmem : record ∈ records) :
    ∃ next, fetch record = some next := by
  obtain ⟨before, after, rfl⟩ := List.append_of_mem hmem
  cases hlist.drop with
  | cons hfetch _ => exact ⟨_, hfetch⟩

theorem congr {other : ι → Option (Option ι)} {head : Option ι} {records : List ι}
    (hlist : IsSList fetch head records)
    (hsame : ∀ record ∈ records, other record = fetch record) :
    IsSList other head records := by
  induction hlist with
  | nil => exact .nil
  | cons hfetch _ ih =>
      refine .cons ((hsame _ List.mem_cons_self).trans hfetch) (ih ?_)
      exact fun record hmem => hsame record (List.mem_cons_of_mem _ hmem)

end IsSList

/-- The pointer in one record passes over the next record. -/
theorem IsSList.unlink {other : ι → Option (Option ι)} {head next : Option ι}
    {before after : List ι} {last target : ι}
    (hlist : IsSList fetch head (before ++ last :: target :: after))
    (htarget : fetch target = some next) (hlast : other last = some next)
    (hsame : ∀ record, record ≠ last → record ≠ target →
      other record = fetch record) :
    IsSList other head (before ++ last :: after) := by
  have hnodup := hlist.nodup
  induction before generalizing head with
  | nil =>
      cases hlist with
      | cons _ hrest =>
          cases hrest with
          | cons hfetch hafter =>
              rw [htarget, Option.some.injEq] at hfetch
              subst hfetch
              refine .cons hlast (hafter.congr fun record hmem => ?_)
              simp only [List.nil_append, List.nodup_cons, List.mem_cons, not_or] at hnodup
              refine hsame record ?_ ?_
              · rintro rfl
                exact hnodup.1.2 hmem
              · rintro rfl
                exact hnodup.2.1 hmem
  | cons first rest ih =>
      cases hlist with
      | cons hfetch hrest =>
          have hfirst := (List.nodup_cons.mp hnodup).1
          refine .cons ?_ (ih hrest hrest.nodup)
          rw [hsame first ?_ ?_, hfetch]
          · rintro rfl
            exact hfirst (by simp)
          · rintro rfl
            exact hfirst (by simp)

/-- Where a pointer to a record is stored. -/
inductive Link (ι : Type*)
  | head
  | next (record : ι)

/-- The loop that looks for the pointer to a record; `some none` if it comes to
the end of the list. -/
def findLink [DecidableEq ι] (fetch : ι → Option (Option ι)) (target : ι) :
    ℕ → Link ι → Option ι → Option (Option (Link ι))
  | 0, _, _ => none
  | _ + 1, _, none => some none
  | fuel + 1, link, some record =>
      if record = target then
        some (some link)
      else do
        let next ← fetch record
        findLink fetch target fuel (.next record) next

/-- The place of the pointer to the record behind the given ones. -/
def linkBehind (link : Link ι) (before : List ι) : Link ι :=
  (before.getLast?.map Link.next).getD link

theorem linkBehind_cons (link : Link ι) (record : ι) (before : List ι) :
    linkBehind link (record :: before) = linkBehind (.next record) before := by
  unfold linkBehind
  cases before with
  | nil => rfl
  | cons second rest =>
      obtain ⟨last, hlast⟩ : ∃ last, (second :: rest).getLast? = some last :=
        Option.isSome_iff_exists.mp (by simp)
      rw [List.getLast?_cons_cons, hlast]
      rfl

theorem IsSList.findLink_eq [DecidableEq ι] {head : Option ι} {before after : List ι} {target : ι}
    (hlist : IsSList fetch head (before ++ target :: after))
    (hbefore : target ∉ before) {fuel : ℕ} (hfuel : before.length < fuel)
    (link : Link ι) :
    findLink fetch target fuel link head = some (some (linkBehind link before)) := by
  induction before generalizing head fuel link with
  | nil =>
      obtain ⟨fuel, rfl⟩ := Nat.exists_eq_succ_of_ne_zero (Nat.ne_of_gt hfuel)
      cases hlist with
      | cons _ _ => simp [findLink, linkBehind]
  | cons first rest ih =>
      obtain ⟨fuel, rfl⟩ :=
        Nat.exists_eq_succ_of_ne_zero (Nat.ne_of_gt (Nat.zero_lt_of_lt hfuel))
      rw [List.mem_cons, not_or] at hbefore
      rw [List.length_cons] at hfuel
      cases hlist with
      | cons hfetch hrest =>
          rw [linkBehind_cons]
          unfold findLink
          rw [if_neg fun heq => hbefore.1 heq.symm, hfetch]
          exact ih hrest hbefore.2 (Nat.lt_of_succ_lt_succ hfuel) (.next first)

end Pocl
