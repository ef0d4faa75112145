import Mathlib.Data.List.Nodup
import Mathlib.Tactic

/-!
# Intrusive doubly linked lists

The list discipline of the usual C macro collections: every record carries a
`next` and a `prev` pointer, the last record has a null `next`, and the `prev`
pointer of the first record holds the last one.  Several lists may live in the
same records as long as they share none of them.

`Links.append` and `Links.delete` are the two pointer programs.  They return
`none` where the C code would follow a null pointer or fail an assertion.
`IsDList` says which list of records a head pointer denotes; the two
specifications below are the only facts about pointers that clients need.
-/

namespace Pocl

/-- The link fields of all records of one pool. -/
structure Links (ι : Type*) where
  next : ι → Option ι
  prev : ι → Option ι

namespace Links

variable {ι : Type*}

section Updates

variable [DecidableEq ι]

def setNext (links : Links ι) (record : ι) (target : Option ι) : Links ι :=
  { links with next := Function.update links.next record target }

def setPrev (links : Links ι) (record : ι) (target : Option ι) : Links ι :=
  { links with prev := Function.update links.prev record target }

/-- Put a record at the end of the list that starts at `head`. -/
def append (links : Links ι) (head : Option ι) (add : ι) :
    Option (Links ι × Option ι) :=
  match head with
  | some first =>
      match links.prev first with
      | some last =>
          some
            ((((links.setPrev add (some last)).setNext last (some add)).setPrev
              first (some add)).setNext add none, some first)
      | none => none
  | none => some ((links.setPrev add (some add)).setNext add none, some add)

/-- Take a record out of the list that starts at `head`.  The link fields of
the removed record keep their old values. -/
def delete (links : Links ι) (head : Option ι) (del : ι) :
    Option (Links ι × Option ι) :=
  match links.prev del with
  | none => none
  | some before =>
      if before = del then
        some (links, none)
      else if head = some del then
        match links.next del with
        | none => none
        | some after => some (links.setPrev after (some before), some after)
      else
        match links.next del with
        | some after =>
            some
              ((links.setNext before (some after)).setPrev after (some before),
                head)
        | none =>
            match head with
            | none => none
            | some first =>
                some
                  ((links.setNext before none).setPrev first (some before), head)

end Updates

/-- The search loop of the traversal macro: the first record from `cursor` on
that passes the test.  The test itself may fail, and so does a walk that is
longer than `fuel`. -/
def search (links : Links ι) (test : ι → Option Bool) :
    ℕ → Option ι → Option (Option ι)
  | _, none => some none
  | 0, some _ => none
  | fuel + 1, some cursor =>
      match test cursor with
      | none => none
      | some true => some (some cursor)
      | some false => search links test fuel (links.next cursor)

end Links

/-- The records reached from `head` are exactly `records`, in this order. -/
structure IsDList
    {ι : Type*} (links : Links ι) (head : Option ι) (records : List ι) :
    Prop where
  head_eq : head = records[0]?
  nodup : records.Nodup
  next_eq : ∀ index record,
    records[index]? = some record → links.next record = records[index + 1]?
  prev_eq : ∀ index record,
    records[index + 1]? = some record → links.prev record = records[index]?
  prev_head : ∀ record,
    records[0]? = some record → links.prev record = records.getLast?

namespace IsDList

variable {ι : Type*} {links links' : Links ι} {head : Option ι}
  {records : List ι}

theorem nil (links : Links ι) : IsDList links none [] := by
  constructor <;> simp

/-- The list a head pointer denotes depends only on the links of its own
records. -/
theorem congr
    (hlist : IsDList links head records)
    (hsame : ∀ record ∈ records,
      links'.next record = links.next record ∧
        links'.prev record = links.prev record) :
    IsDList links' head records where
  head_eq := hlist.head_eq
  nodup := hlist.nodup
  next_eq index record hrecord := by
    rw [(hsame record (List.mem_of_getElem? hrecord)).1]
    exact hlist.next_eq index record hrecord
  prev_eq index record hrecord := by
    rw [(hsame record (List.mem_of_getElem? hrecord)).2]
    exact hlist.prev_eq index record hrecord
  prev_head record hrecord := by
    rw [(hsame record (List.mem_of_getElem? hrecord)).2]
    exact hlist.prev_head record hrecord

theorem index_unique
    (hlist : IsDList links head records)
    {i j : ℕ} {record : ι}
    (hi : records[i]? = some record) (hj : records[j]? = some record) :
    i = j := by
  obtain ⟨hilt, hival⟩ := List.getElem?_eq_some_iff.mp hi
  obtain ⟨hjlt, hjval⟩ := List.getElem?_eq_some_iff.mp hj
  exact (hlist.nodup.getElem_inj_iff).mp (hival.trans hjval.symm)

/-- A head pointer denotes at most one list. -/
theorem unique
    {records' : List ι}
    (hlist : IsDList links head records)
    (hlist' : IsDList links head records') :
    records = records' := by
  apply List.ext_getElem?
  intro index
  induction index with
  | zero => rw [← hlist.head_eq, ← hlist'.head_eq]
  | succ index ih =>
      cases hrecord : records[index]? with
      | none =>
          have hnone' : records'[index]? = none := by rw [← ih, hrecord]
          rw [List.getElem?_eq_none_iff] at hrecord hnone'
          rw [List.getElem?_eq_none (by omega), List.getElem?_eq_none (by omega)]
      | some record =>
          rw [← hlist.next_eq index record hrecord,
            ← hlist'.next_eq index record (by rw [← ih, hrecord])]

/-- A search along a list is a search in the list it denotes. -/
theorem search_eq
    (hlist : IsDList links head records)
    {test : ι → Option Bool} {holds : ι → Bool}
    (htest : ∀ record ∈ records, test record = some (holds record))
    (fuel index : ℕ) (hfuel : records.length ≤ fuel + index) :
    links.search test fuel records[index]? =
      some ((records.drop index).find? holds) := by
  induction fuel generalizing index with
  | zero =>
      have hnone : records[index]? = none :=
        List.getElem?_eq_none (by omega)
      rw [hnone, List.drop_eq_nil_of_le (by omega)]
      rfl
  | succ fuel ih =>
      cases hcursor : records[index]? with
      | none =>
          have hdrop : records.drop index = [] := by
            simpa using hcursor
          rw [hdrop]
          rfl
      | some cursor =>
          obtain ⟨hlt, hval⟩ := List.getElem?_eq_some_iff.mp hcursor
          have hdrop : records.drop index = cursor :: records.drop (index + 1) := by
            rw [List.drop_eq_getElem_cons hlt, hval]
          rw [hdrop, List.find?_cons, Links.search,
            htest cursor (List.mem_of_getElem? hcursor)]
          cases holds cursor with
          | true => rfl
          | false =>
              simp only
              rw [hlist.next_eq index cursor hcursor]
              exact ih (index + 1) (by omega)

theorem prev_of_later
    (hlist : IsDList links head records) {index : ℕ} {before del first : ι}
    (hdel : records[index + 1]? = some del)
    (hbefore : records[index]? = some before) (hfirst : records[0]? = some first) :
    links.prev del = some before ∧ before ≠ del ∧ first ≠ del := by
  refine ⟨by rw [hlist.prev_eq index del hdel, hbefore], fun heq => ?_, fun heq => ?_⟩
  · have hindex := hlist.index_unique hbefore (heq ▸ hdel)
    omega
  · have hindex := hlist.index_unique hfirst (heq ▸ hdel)
    omega

variable [DecidableEq ι]

/-- Appending succeeds, lengthens the list by one record and touches no link
outside it. -/
theorem append
    (hlist : IsDList links head records)
    {add : ι} (hadd : add ∉ records) :
    ∃ links' head',
      links.append head add = some (links', head') ∧
        IsDList links' head' (records ++ [add]) ∧
        ∀ record, record ∉ records ++ [add] →
          links'.next record = links.next record ∧
            links'.prev record = links.prev record := by
  have hne : ∀ {i : ℕ} {record : ι}, records[i]? = some record → record ≠ add := by
    intro i record hrecord heq
    exact hadd (heq ▸ List.mem_of_getElem? hrecord)
  cases hfirst : records[0]? with
  | none =>
      obtain rfl : records = [] := by simpa using hfirst
      refine ⟨_, _, by rw [hlist.head_eq]; rfl, ?_, ?_⟩
      · constructor
        case next_eq =>
          intro index record hrecord
          simp only [Links.setNext, Links.setPrev, Function.update_apply]
          grind
        all_goals simp [Links.setNext, Links.setPrev]
      · intro record hrecord
        simp [Links.setNext, Links.setPrev] at hrecord ⊢
        simp [hrecord]
  | some first =>
      have hlen : 0 < records.length := (List.getElem?_eq_some_iff.mp hfirst).1
      obtain ⟨last, hlast⟩ : ∃ last, records[records.length - 1]? = some last :=
        ⟨_, List.getElem?_eq_getElem (by omega)⟩
      have hprev : links.prev first = some last := by
        rw [hlist.prev_head first hfirst, List.getLast?_eq_getElem?, hlast]
      have hhead := hlist.head_eq.trans hfirst
      refine ⟨_, _, by rw [hhead, Links.append]; simp only [hprev]; rfl, ?_, ?_⟩
      · have hnodup := hlist.nodup
        constructor
        · grind
        · grind
        · intro index record hrecord
          have hinj : records[index]? = some last → index = records.length - 1 :=
            fun h => hlist.index_unique h hlast
          have hnext := hlist.next_eq index record
          simp only [Links.setNext, Links.setPrev, Function.update_apply]
          grind
        · intro index record hrecord
          have hinj : records[index + 1]? = some first → index + 1 = 0 :=
            fun h => hlist.index_unique h hfirst
          have hprevIndex := hlist.prev_eq index record
          simp only [Links.setNext, Links.setPrev, Function.update_apply]
          grind
        · intro record hrecord
          simp only [Links.setNext, Links.setPrev, Function.update_apply]
          grind
      · intro record hrecord
        have hlastMem := List.mem_of_getElem? hlast
        have hfirstMem := List.mem_of_getElem? hfirst
        simp only [Links.setNext, Links.setPrev, Function.update_apply]
        grind

/-- The record goes and the others stay listed; no link outside the list changes. -/
def Deletes (links : Links ι) (head : Option ι) (records : List ι) (index : ℕ) (del : ι) :
    Prop :=
  ∃ links' head',
    links.delete head del = some (links', head') ∧
      IsDList links' head' (records.eraseIdx index) ∧
      ∀ record, record ∉ records →
        links'.next record = links.next record ∧
          links'.prev record = links.prev record

/-- The `prev` of the head is the tail, which may be the head itself. -/
theorem delete_head
    (hlist : IsDList links head records)
    {first : ι} (hfirst : records[0]? = some first) :
    Deletes links head records 0 first := by
  have hlt : 0 < records.length := (List.getElem?_eq_some_iff.mp hfirst).1
  have hhead := hlist.head_eq.trans hfirst
  have hnodup := hlist.nodup
  have hnext := hlist.next_eq 0 first hfirst
  have herase : ∀ i, (records.eraseIdx 0)[i]? =
      if i < 0 then records[i]? else records[i + 1]? :=
    fun i => List.getElem?_eraseIdx
  have hprev : links.prev first = records[records.length - 1]? := by
    rw [hlist.prev_head first hfirst, List.getLast?_eq_getElem?]
  cases hafter : records[1]? with
  | none =>
      have hone : records = [first] := by
        cases records with
        | nil => simp at hfirst
        | cons record rest => simp_all
      subst hone
      refine ⟨links, none, ?_, by simpa using nil links, fun _ _ => ⟨rfl, rfl⟩⟩
      simp [Links.delete, hprev]
  | some after =>
      obtain ⟨last, hlast⟩ : ∃ last, records[records.length - 1]? = some last :=
        ⟨_, List.getElem?_eq_getElem (by omega)⟩
      have hlastNe : last ≠ first := by
        intro heq
        have := hlist.index_unique hlast (heq ▸ hfirst)
        grind
      refine ⟨links.setPrev after (some last), some after, ?_, ?_, ?_⟩
      · simp [Links.delete, hprev, hlast, hlastNe, hhead, hnext, hafter]
      · constructor
        · grind
        · exact hnodup.eraseIdx 0
        · intro i record hrecord
          simp only [Links.setPrev, herase] at hrecord ⊢
          have := hlist.next_eq (i + 1) record
          grind
        · intro i record hrecord
          simp only [Links.setPrev, herase, Function.update_apply] at hrecord ⊢
          have := hlist.prev_eq (i + 1) record
          have := @index_unique _ _ _ _ hlist 1 (i + 1 + 1) record
          grind
        · intro record hrecord
          simp only [Links.setPrev, herase, Function.update_apply] at hrecord ⊢
          rw [List.getLast?_eq_getElem?, herase]
          grind
      · intro record hrecord
        have := List.mem_of_getElem? hafter
        simp only [Links.setPrev, Function.update_apply]
        grind

section Later

variable {index : ℕ} {before del first : ι}

theorem delete_inner
    (hlist : IsDList links head records) (hdel : records[index + 1]? = some del)
    (hbefore : records[index]? = some before) (hfirst : records[0]? = some first)
    {after : ι} (hafter : records[index + 2]? = some after) :
    Deletes links head records (index + 1) del := by
  have hhead := hlist.head_eq.trans hfirst
  have hinj := @index_unique _ _ _ _ hlist
  have hnodup := hlist.nodup
  have hnext := hlist.next_eq (index + 1) del hdel
  obtain ⟨hprev, hbeforeNe, hfirstNe⟩ := hlist.prev_of_later hdel hbefore hfirst
  have herase : ∀ i, (records.eraseIdx (index + 1))[i]? =
      if i < index + 1 then records[i]? else records[i + 1]? :=
    fun i => List.getElem?_eraseIdx
  refine ⟨(links.setNext before (some after)).setPrev after (some before),
    head, ?_, ?_, ?_⟩
  · simp [Links.delete, hprev, hbeforeNe, hhead, hfirstNe, hnext, hafter]
  · constructor
    · grind
    · exact hnodup.eraseIdx (index + 1)
    · intro i record hrecord
      simp only [Links.setNext, Links.setPrev, herase,
        Function.update_apply] at hrecord ⊢
      have := hlist.next_eq i record
      have := hlist.next_eq (i + 1) record
      have := @hinj i index record
      have := @hinj (i + 1) index record
      grind
    · intro i record hrecord
      simp only [Links.setNext, Links.setPrev, herase,
        Function.update_apply] at hrecord ⊢
      have := hlist.prev_eq i record
      have := hlist.prev_eq (i + 1) record
      have := @hinj (i + 1) (index + 2) record
      have := @hinj (i + 1 + 1) (index + 2) record
      grind
    · intro record hrecord
      simp only [Links.setNext, Links.setPrev, herase,
        Function.update_apply] at hrecord ⊢
      rw [List.getLast?_eq_getElem?, herase]
      have := hlist.prev_head record
      have := @hinj 0 (index + 2) record
      grind
  · intro record hrecord
    have := List.mem_of_getElem? hafter
    have := List.mem_of_getElem? hbefore
    simp only [Links.setNext, Links.setPrev, Function.update_apply]
    grind

theorem delete_last
    (hlist : IsDList links head records) (hdel : records[index + 1]? = some del)
    (hbefore : records[index]? = some before) (hfirst : records[0]? = some first)
    (hafter : records[index + 2]? = none) :
    Deletes links head records (index + 1) del := by
  have hhead := hlist.head_eq.trans hfirst
  have hinj := @index_unique _ _ _ _ hlist
  have hnodup := hlist.nodup
  have hnext := hlist.next_eq (index + 1) del hdel
  obtain ⟨hprev, hbeforeNe, hfirstNe⟩ := hlist.prev_of_later hdel hbefore hfirst
  have hend : index + 2 = records.length := by grind
  have herase : ∀ i, (records.eraseIdx (index + 1))[i]? =
      if i < index + 1 then records[i]? else records[i + 1]? :=
    fun i => List.getElem?_eraseIdx
  refine ⟨(links.setNext before none).setPrev first (some before),
    head, ?_, ?_, ?_⟩
  · simp [Links.delete, hprev, hbeforeNe, hhead, hfirstNe, hnext, hafter]
  · constructor
    · grind
    · exact hnodup.eraseIdx (index + 1)
    · intro i record hrecord
      simp only [Links.setNext, Links.setPrev, herase,
        Function.update_apply] at hrecord ⊢
      have := hlist.next_eq i record
      have := @hinj i index record
      grind
    · intro i record hrecord
      simp only [Links.setNext, Links.setPrev, herase,
        Function.update_apply] at hrecord ⊢
      have := hlist.prev_eq i record
      have := @hinj (i + 1) 0 record
      grind
    · intro record hrecord
      simp only [Links.setNext, Links.setPrev, herase,
        Function.update_apply] at hrecord ⊢
      rw [List.getLast?_eq_getElem?, herase]
      grind
  · intro record hrecord
    have := List.mem_of_getElem? hfirst
    have := List.mem_of_getElem? hbefore
    simp only [Links.setNext, Links.setPrev, Function.update_apply]
    grind

end Later

/-- Deleting a listed record succeeds, removes exactly this record and touches
no link outside the list. -/
theorem delete
    (hlist : IsDList links head records)
    {index : ℕ} {del : ι} (hdel : records[index]? = some del) :
    ∃ links' head',
      links.delete head del = some (links', head') ∧
        IsDList links' head' (records.eraseIdx index) ∧
        ∀ record, record ∉ records →
          links'.next record = links.next record ∧
            links'.prev record = links.prev record := by
  have hlt : index < records.length := (List.getElem?_eq_some_iff.mp hdel).1
  obtain ⟨first, hfirst⟩ : ∃ first, records[0]? = some first :=
    ⟨_, List.getElem?_eq_getElem (by omega)⟩
  cases index with
  | zero => exact hlist.delete_head hdel
  | succ index =>
      obtain ⟨before, hbefore⟩ : ∃ before, records[index]? = some before :=
        ⟨_, List.getElem?_eq_getElem (by omega)⟩
      cases hafter : records[index + 2]? with
      | some after => exact hlist.delete_inner hdel hbefore hfirst hafter
      | none => exact hlist.delete_last hdel hbefore hfirst hafter

end IsDList

end Pocl
