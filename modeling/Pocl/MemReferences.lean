import Pocl.CommandQueueEffects
import Pocl.OptionPrograms
import Mathlib.Data.Finset.Card
import Mathlib.Data.Finset.Range
import Mathlib.Data.List.ReduceOption

/-!
# The references on memory objects

Each object has the references of its holders and one for each of its sub-buffers.
While no holder gives back more than it has, a retain and a release are defined,
and an object is freed with its last reference.
-/

namespace Pocl

namespace CommandQueue

open State

/-- The live sub-buffers of an object. -/
def State.subBuffers (state : State) (mem : MemId) : Finset MemId :=
  (Finset.range state.nextMem).filter fun sub =>
    (state.mem sub).bind MemObject.parent = some mem

/-- The counts are those of the given holders, and the objects have the given
parents and mappings. -/
structure Counted (refs : MemId → ℤ) (parents : MemId → Option MemId)
    (maps : MemId → List Mapping) (state : State) : Prop where
  refs_nonneg : ∀ mem, 0 ≤ refs mem
  refcount_eq : ∀ mem object, state.mem mem = some object →
    object.refcount = refs mem + (state.subBuffers mem).card
  dead : ∀ mem, state.mem mem = none → refs mem = 0 ∧ state.subBuffers mem = ∅
  parent_eq : ∀ mem object, state.mem mem = some object → object.parent = parents mem
  parent_ne : ∀ mem, parents mem ≠ some mem
  mappings_eq : ∀ mem object, state.mem mem = some object → object.mappings = maps mem
  mem_lt : ∀ mem, (state.mem mem).isSome = true → mem < state.nextMem

variable {state : State} {refs : MemId → ℤ} {parents : MemId → Option MemId}
  {maps : MemId → List Mapping} {mayFail : Prop}

theorem mem_subBuffers {mem sub : MemId} :
    sub ∈ state.subBuffers mem ↔
      sub < state.nextMem ∧ (state.mem sub).bind MemObject.parent = some mem := by
  unfold State.subBuffers
  rw [Finset.mem_filter, Finset.mem_range]

theorem subBuffers_setMem
    {mem : MemId} {object : MemObject} {new : Option MemObject}
    (hobject : state.mem mem = some object)
    (hparent : new.bind MemObject.parent = object.parent) (other : MemId) :
    (state.setMem mem new).subBuffers other = state.subBuffers other := by
  ext sub
  by_cases heq : sub = mem
  · subst sub
    simp [mem_subBuffers, setMem, hobject, hparent]
  · simp [mem_subBuffers, setMem, heq]

theorem subBuffers_free (mem other : MemId) :
    (state.setMem mem none).subBuffers other = (state.subBuffers other).erase mem := by
  ext sub
  by_cases heq : sub = mem
  · subst sub
    simp [mem_subBuffers, setMem]
  · simp [mem_subBuffers, setMem, heq]

namespace Counted

theorem live
    (hcounted : Counted refs parents maps state) {mem : MemId} (hrefs : 0 < refs mem) :
    (state.mem mem).isSome = true := by
  cases hmem : state.mem mem with
  | none => exact absurd (hcounted.dead mem hmem).1 (ne_of_gt hrefs)
  | some object => rfl

theorem congr_refs
    {other : MemId → ℤ} (hcounted : Counted refs parents maps state)
    (hother : ∀ mem, other mem = refs mem) : Counted other parents maps state := by
  have heq : other = refs := funext hother
  rw [heq]
  exact hcounted

theorem congr_mem
    {after : State} (hcounted : Counted refs parents maps state)
    (hmem : after.mem = state.mem) (hnext : after.nextMem = state.nextMem) :
    Counted refs parents maps after := by
  have hsubs : after.subBuffers = state.subBuffers := by
    unfold State.subBuffers
    rw [hmem, hnext]
  refine ⟨hcounted.refs_nonneg, ?_, ?_, ?_, hcounted.parent_ne, ?_, ?_⟩
  · rw [hmem, hsubs]
    exact hcounted.refcount_eq
  · rw [hmem, hsubs]
    exact hcounted.dead
  · rw [hmem]
    exact hcounted.parent_eq
  · rw [hmem]
    exact hcounted.mappings_eq
  · rw [hmem, hnext]
    exact hcounted.mem_lt

/-- An object whose count changes with its references. -/
theorem setMem
    {mem : MemId} {object new : MemObject} {references : ℤ}
    (hcounted : Counted refs parents maps state) (hobject : state.mem mem = some object)
    (hreferences : 0 ≤ references) (hparent : new.parent = object.parent)
    (hrefcount : new.refcount = references + (state.subBuffers mem).card) :
    Counted (Function.update refs mem references) parents
      (Function.update maps mem new.mappings) (state.setMem mem (some new)) := by
  have hsubs : ∀ other, (state.setMem mem (some new)).subBuffers other =
      state.subBuffers other := subBuffers_setMem hobject hparent
  have hself : (state.setMem mem (some new)).mem mem = some new := by
    simp [State.setMem]
  have hother : ∀ other, other ≠ mem →
      (state.setMem mem (some new)).mem other = state.mem other := by
    intro other heq
    simp [State.setMem, heq]
  refine ⟨fun other => ?_, fun other found hfound => ?_, fun other hfound => ?_,
    fun other found hfound => ?_, hcounted.parent_ne, fun other found hfound => ?_,
    fun other hlive => ?_⟩
  · by_cases heq : other = mem
    · subst other
      simpa using hreferences
    · simpa [heq] using hcounted.refs_nonneg other
  · rw [hsubs]
    by_cases heq : other = mem
    · subst other
      rw [hself, Option.some.injEq] at hfound
      subst found
      simpa using hrefcount
    · rw [hother other heq] at hfound
      simpa [heq] using hcounted.refcount_eq other found hfound
  · rw [hsubs]
    by_cases heq : other = mem
    · subst other
      rw [hself] at hfound
      cases hfound
    · rw [hother other heq] at hfound
      simpa [heq] using hcounted.dead other hfound
  · by_cases heq : other = mem
    · subst other
      rw [hself, Option.some.injEq] at hfound
      subst found
      exact hparent.trans (hcounted.parent_eq _ object hobject)
    · rw [hother other heq] at hfound
      exact hcounted.parent_eq other found hfound
  · by_cases heq : other = mem
    · subst other
      rw [hself, Option.some.injEq] at hfound
      subst found
      simp
    · rw [hother other heq] at hfound
      simpa [heq] using hcounted.mappings_eq other found hfound
  · by_cases heq : other = mem
    · subst other
      exact hcounted.mem_lt _ (by rw [hobject]; rfl)
    · rw [hother other heq] at hlive
      exact hcounted.mem_lt other hlive

/-- An object that is freed with its last reference, and its parent, which loses
one. -/
theorem free
    {mem : MemId} {object : MemObject} {middle : State}
    (hcounted : Counted refs parents maps state) (hobject : state.mem mem = some object)
    (hrefs : refs mem = 1) (hsubs : state.subBuffers mem = ∅)
    (hmem : ∀ other, object.parent ≠ some other → middle.mem other = state.mem other)
    (hparent : ∀ parent, object.parent = some parent →
      ∃ parentObject, state.mem parent = some parentObject ∧
        middle.mem parent =
          some { parentObject with refcount := parentObject.refcount - 1 })
    (hnext : middle.nextMem = state.nextMem) :
    Counted (Function.update refs mem 0) parents maps (middle.setMem mem none) := by
  have hmiddle : ∀ other, (middle.mem other).bind MemObject.parent =
      (state.mem other).bind MemObject.parent := by
    intro other
    by_cases heq : object.parent = some other
    · obtain ⟨parentObject, hfound, hset⟩ := hparent other heq
      rw [hset, hfound]
      rfl
    · rw [hmem other heq]
  have hafter : ∀ other, (middle.setMem mem none).subBuffers other =
      (state.subBuffers other).erase mem := by
    intro other
    rw [subBuffers_free]
    congr 1
    ext sub
    rw [mem_subBuffers, mem_subBuffers, hmiddle, hnext]
  have hself : (middle.setMem mem none).mem mem = none := by
    simp [State.setMem]
  have hset : ∀ other, other ≠ mem →
      (middle.setMem mem none).mem other = middle.mem other := by
    intro other heq
    simp [State.setMem, heq]
  -- The object is counted among the sub-buffers of its parent and of no other.
  have hmember : ∀ other, mem ∈ state.subBuffers other ↔ object.parent = some other := by
    intro other
    rw [mem_subBuffers, hobject]
    exact ⟨fun h => h.2, fun h => ⟨hcounted.mem_lt mem (by rw [hobject]; rfl), h⟩⟩
  have hlive : ∀ other found, (middle.setMem mem none).mem other = some found →
      other ≠ mem ∧ middle.mem other = some found := by
    intro other found hfound
    have hne : other ≠ mem := by
      rintro rfl
      rw [hself] at hfound
      cases hfound
    rw [hset other hne] at hfound
    exact ⟨hne, hfound⟩
  have hold : ∀ other found, middle.mem other = some found →
      ∃ old, state.mem other = some old ∧ found.parent = old.parent ∧
        found.mappings = old.mappings := by
    intro other found hfound
    by_cases heq : object.parent = some other
    · obtain ⟨parentObject, hold, hnew⟩ := hparent other heq
      rw [hnew, Option.some.injEq] at hfound
      subst found
      exact ⟨parentObject, hold, rfl, rfl⟩
    · rw [hmem other heq] at hfound
      exact ⟨found, hfound, rfl, rfl⟩
  refine ⟨fun other => ?_, fun other found hfound => ?_, fun other hfound => ?_,
    fun other found hfound => ?_, hcounted.parent_ne, fun other found hfound => ?_,
    fun other hother => ?_⟩
  · by_cases heq : other = mem
    · subst other
      simp
    · simpa [heq] using hcounted.refs_nonneg other
  · obtain ⟨hne, hfound⟩ := hlive other found hfound
    rw [hafter, Function.update_of_ne hne]
    by_cases heq : object.parent = some other
    · obtain ⟨parentObject, hold, hnew⟩ := hparent other heq
      rw [hnew, Option.some.injEq] at hfound
      subst found
      have hcard := Finset.card_erase_add_one ((hmember other).mpr heq)
      have hcount := hcounted.refcount_eq other parentObject hold
      change parentObject.refcount - 1 = _
      omega
    · rw [hmem other heq] at hfound
      rw [Finset.erase_eq_of_notMem fun h => heq ((hmember other).mp h)]
      exact hcounted.refcount_eq other found hfound
  · rw [hafter]
    by_cases heq : other = mem
    · subst other
      simp [hsubs]
    · rw [hset other heq] at hfound
      have hnot : object.parent ≠ some other := by
        intro hsome
        obtain ⟨parentObject, _, hnew⟩ := hparent other hsome
        rw [hnew] at hfound
        cases hfound
      rw [hmem other hnot] at hfound
      have hdead := hcounted.dead other hfound
      rw [Function.update_of_ne heq, hdead.2]
      exact ⟨hdead.1, rfl⟩
  · obtain ⟨_, hfound⟩ := hlive other found hfound
    obtain ⟨old, hstate, hparentEq, _⟩ := hold other found hfound
    exact hparentEq.trans (hcounted.parent_eq other old hstate)
  · obtain ⟨_, hfound⟩ := hlive other found hfound
    obtain ⟨old, hstate, _, hmappings⟩ := hold other found hfound
    exact hmappings.trans (hcounted.mappings_eq other old hstate)
  · obtain ⟨found, hfound⟩ := Option.isSome_iff_exists.mp hother
    obtain ⟨_, hfound⟩ := hlive other found hfound
    obtain ⟨old, hstate, _⟩ := hold other found hfound
    change other < middle.nextMem
    rw [hnext]
    exact hcounted.mem_lt other (by rw [hstate]; rfl)

theorem setRefcount
    {mem : MemId} {object : MemObject} {refcount references : ℤ}
    (hcounted : Counted refs parents maps state) (hobject : state.mem mem = some object)
    (hreferences : 0 ≤ references)
    (hrefcount : refcount = references + (state.subBuffers mem).card) :
    Counted (Function.update refs mem references) parents maps
      (state.setMem mem (some { object with refcount := refcount })) := by
  have hmaps : Function.update maps mem object.mappings = maps := by
    rw [hcounted.mappings_eq mem object hobject, Function.update_eq_self]
  have hset := hcounted.setMem hobject hreferences
    (show ({ object with refcount := refcount } : MemObject).parent = object.parent
      from rfl) hrefcount
  rw [hmaps] at hset
  exact hset

theorem setSame
    {mem : MemId} {object new : MemObject} (hcounted : Counted refs parents maps state)
    (hobject : state.mem mem = some object) (hrefcount : new.refcount = object.refcount)
    (hparent : new.parent = object.parent) (hmappings : new.mappings = object.mappings) :
    Counted refs parents maps (state.setMem mem (some new)) := by
  have hset := hcounted.setMem hobject (hcounted.refs_nonneg mem) hparent
    (hrefcount.trans (hcounted.refcount_eq mem object hobject))
  rw [hmappings, hcounted.mappings_eq mem object hobject, Function.update_eq_self,
    Function.update_eq_self] at hset
  exact hset

theorem retainMem
    {mem : MemId} (hcounted : Counted refs parents maps state)
    (hlive : ¬mayFail → (state.mem mem).isSome = true) :
    Meets mayFail (state.retainMem mem) fun after =>
      Counted (fun other => refs other + ([mem].count other : ℕ)) parents maps after ∧
        MemOnly state after ∧
        ∀ other, (after.mem other).isSome = (state.mem other).isSome := by
  refine (Meets.self hlive).seq fun object hobject => ?_
  have hcount := hcounted.refcount_eq mem object hobject
  have hset : Counted (Function.update refs mem (refs mem + 1)) parents maps
      (state.setMem mem (some { object with refcount := object.refcount + 1 })) :=
    hcounted.setRefcount hobject
      (Int.add_nonneg (hcounted.refs_nonneg mem) zero_le_one) (by omega)
  refine ⟨hset.congr_refs fun other => ?_, rfl, fun other => ?_⟩
  · by_cases heq : other = mem
    · subst other
      simp
    · simp [heq, Ne.symm heq]
  · by_cases heq : other = mem
    · subst other
      simp [State.setMem, hobject]
    · simp [State.setMem, heq]

theorem releaseMem
    {mem : MemId} (hcounted : Counted refs parents maps state) (hrefs : 1 ≤ refs mem) :
    Meets mayFail (state.releaseMem mem) fun after =>
      Counted (fun other => refs other - ([mem].count other : ℕ)) parents maps after ∧
        MemOnly state after := by
  have hrefsEq : ∀ {references : ℤ}, references = refs mem - 1 → ∀ other,
      refs other - ([mem].count other : ℕ) = Function.update refs mem references other := by
    intro references hreferences other
    by_cases heq : other = mem
    · subst other
      simp [hreferences]
    · simp [heq, Ne.symm heq]
  have hpos : 0 < refs mem := by omega
  obtain ⟨object, hobject⟩ := Option.isSome_iff_exists.mp (hcounted.live hpos)
  have hcount := hcounted.refcount_eq mem object hobject
  have hparent := hcounted.parent_eq mem object hobject
  unfold State.releaseMem
  rw [hobject]
  change Meets mayFail (if object.refcount - 1 = 0 then _ else _) _
  refine Meets.cond (fun hlast => ?_) fun _ => ?_
  · have hone : refs mem = 1 := by omega
    have hsubs : state.subBuffers mem = ∅ := Finset.card_eq_zero.mp (by omega)
    cases hobjectParent : object.parent with
    | none =>
        have hfree : Counted (Function.update refs mem 0) parents maps
            (state.setMem mem none) :=
          hcounted.free hobject hone hsubs (fun _ _ => rfl)
            (fun parent h => by rw [hobjectParent] at h; cases h) rfl
        exact ⟨hfree.congr_refs (hrefsEq (by omega)), rfl⟩
    | some parent =>
        -- The object is a sub-buffer of its parent, which is therefore live.
        have hmember : mem ∈ state.subBuffers parent := by
          rw [mem_subBuffers, hobject]
          exact ⟨hcounted.mem_lt mem (by rw [hobject]; rfl), hobjectParent⟩
        cases hfound : state.mem parent with
        | none =>
            rw [(hcounted.dead parent hfound).2] at hmember
            cases hmember
        | some parentObject =>
            have hfree : Counted (Function.update refs mem 0) parents maps
                ((state.setMem parent (some { parentObject with
                  refcount := parentObject.refcount - 1 })).setMem mem none) :=
              hcounted.free hobject hone hsubs
                (fun other h => by
                  have hne : other ≠ parent := by
                    rintro rfl
                    exact h hobjectParent
                  simp [State.setMem, hne])
                (fun other h => by
                  rw [hobjectParent, Option.some.injEq] at h
                  subst other
                  exact ⟨parentObject, hfound, by simp [State.setMem]⟩) rfl
            change Meets mayFail (state.mem parent >>= _) _
            rw [hfound]
            exact ⟨hfree.congr_refs (hrefsEq (by omega)), rfl⟩
  · have hset : Counted (Function.update refs mem (refs mem - 1)) parents maps
        (state.setMem mem (some { object with refcount := object.refcount - 1 })) :=
      hcounted.setRefcount hobject (by omega) (by omega)
    exact ⟨hset.congr_refs (hrefsEq rfl), rfl⟩

section SubBuffers

variable {buffer : MemId} {object new : MemObject}

theorem nextMem_dead (hcounted : Counted refs parents maps state) :
    state.mem state.nextMem = none := by
  cases hfound : state.mem state.nextMem with
  | none => rfl
  | some found => exact absurd (hcounted.mem_lt _ (by rw [hfound]; rfl)) (lt_irrefl _)

theorem nextMem_ne
    (hcounted : Counted refs parents maps state) (hobject : state.mem buffer = some object) :
    state.nextMem ≠ buffer :=
  ne_of_gt (hcounted.mem_lt buffer (by rw [hobject]; rfl))

/-- The objects when there is one more sub-buffer: the new one and the old ones, of which
the buffer has one more reference. -/
theorem addSubBuffer_mem
    (hcounted : Counted refs parents maps state) (hobject : state.mem buffer = some object)
    {other : MemId} {found : MemObject}
    (hfound : ((state.addMem new).setMem buffer
      (some { object with refcount := object.refcount + 1 })).mem other = some found) :
    (other = state.nextMem ∧ found = new) ∨
      other ≠ state.nextMem ∧ ∃ old, state.mem other = some old ∧
        found.parent = old.parent ∧ found.mappings = old.mappings ∧
        found.refcount = old.refcount + if other = buffer then 1 else 0 := by
  have hne := hcounted.nextMem_ne hobject
  by_cases heq : other = state.nextMem
  · subst other
    left
    have hnew : ((state.addMem new).setMem buffer
        (some { object with refcount := object.refcount + 1 })).mem state.nextMem =
          some new := by
      simp [State.setMem, addMem, hne]
    rw [hnew, Option.some.injEq] at hfound
    exact ⟨rfl, hfound.symm⟩
  · refine Or.inr ⟨heq, ?_⟩
    by_cases hthis : other = buffer
    · subst other
      have hbuffer : ((state.addMem new).setMem buffer
          (some { object with refcount := object.refcount + 1 })).mem buffer =
            some { object with refcount := object.refcount + 1 } := by
        simp [State.setMem]
      rw [hbuffer, Option.some.injEq] at hfound
      subst found
      exact ⟨object, hobject, rfl, rfl, by rw [if_pos rfl]⟩
    · have hother : ((state.addMem new).setMem buffer
          (some { object with refcount := object.refcount + 1 })).mem other =
            state.mem other := by
        simp [State.setMem, addMem, heq, hthis]
      rw [hother] at hfound
      exact ⟨found, hfound, rfl, rfl, by rw [if_neg hthis, add_zero]⟩

theorem addSubBuffer_dead
    {other : MemId}
    (hfound : ((state.addMem new).setMem buffer
      (some { object with refcount := object.refcount + 1 })).mem other = none) :
    other ≠ state.nextMem ∧ other ≠ buffer ∧ state.mem other = none := by
  have hthis : other ≠ buffer := by
    rintro rfl
    simp [State.setMem] at hfound
  have heq : other ≠ state.nextMem := by
    rintro rfl
    simp [State.setMem, addMem, hthis] at hfound
  simp only [State.setMem, addMem, Function.update_of_ne hthis,
    Function.update_of_ne heq] at hfound
  exact ⟨heq, hthis, hfound⟩

theorem nextMem_notMem (other : MemId) : state.nextMem ∉ state.subBuffers other :=
  fun hmem => absurd (mem_subBuffers.mp hmem).1 (lt_irrefl _)

theorem addSubBuffer_subBuffers
    (hcounted : Counted refs parents maps state) (hobject : state.mem buffer = some object)
    (hparent : new.parent = some buffer) (other : MemId) :
    ((state.addMem new).setMem buffer
        (some { object with refcount := object.refcount + 1 })).subBuffers other =
      if other = buffer then insert state.nextMem (state.subBuffers other)
      else state.subBuffers other := by
  have hne := hcounted.nextMem_ne hobject
  ext sub
  rw [mem_subBuffers]
  change sub < state.nextMem + 1 ∧ _ ↔ _
  by_cases heq : sub = state.nextMem
  · subst sub
    have hnew : ((state.addMem new).setMem buffer
        (some { object with refcount := object.refcount + 1 })).mem state.nextMem =
          some new := by
      simp [State.setMem, addMem, hne]
    rw [hnew]
    change _ ∧ new.parent = some other ↔ _
    rw [hparent]
    by_cases hthis : other = buffer
    · simp [hthis]
    · simp [hthis, Ne.symm hthis, nextMem_notMem]
  · have hold : (((state.addMem new).setMem buffer
        (some { object with refcount := object.refcount + 1 })).mem sub).bind
          MemObject.parent = (state.mem sub).bind MemObject.parent := by
      by_cases hthis : sub = buffer
      · subst sub
        rw [hobject]
        simp [State.setMem]
      · simp [State.setMem, addMem, heq, hthis]
    have hiff : sub ∈ (if other = buffer then
        insert state.nextMem (state.subBuffers other) else state.subBuffers other) ↔
          sub ∈ state.subBuffers other := by
      split_ifs
      · simp [heq]
      · rfl
    rw [hold, hiff, mem_subBuffers]
    exact and_congr_left fun _ => ⟨fun hle =>
      Nat.lt_of_le_of_ne (Nat.le_of_lt_succ hle) heq, Nat.lt_succ_of_lt⟩

/-- A new sub-buffer, which takes a reference on its parent. -/
theorem addSubBuffer
    (hcounted : Counted refs parents maps state)
    (hobject : state.mem buffer = some object) (hrefcount : new.refcount = 1)
    (hparent : new.parent = some buffer) (hmappings : new.mappings = []) :
    Counted (Function.update refs state.nextMem 1)
      (Function.update parents state.nextMem (some buffer))
      (Function.update maps state.nextMem [])
      ((state.addMem new).setMem buffer
        (some { object with refcount := object.refcount + 1 })) := by
  have hne := hcounted.nextMem_ne hobject
  have hsubs := hcounted.addSubBuffer_subBuffers hobject hparent
  refine ⟨fun other => ?_, fun other found hfound => ?_, fun other hfound => ?_,
    fun other found hfound => ?_, fun other => ?_, fun other found hfound => ?_,
    fun other hlive => ?_⟩
  · by_cases heq : other = state.nextMem
    · simp [heq]
    · simpa [heq] using hcounted.refs_nonneg other
  · rw [hsubs]
    rcases hcounted.addSubBuffer_mem hobject hfound with
      ⟨rfl, rfl⟩ | ⟨heq, old, hold, -, -, hcountEq⟩
    · rw [if_neg hne, (hcounted.dead _ hcounted.nextMem_dead).2]
      simpa using hrefcount
    · have hcount := hcounted.refcount_eq other old hold
      rw [Function.update_of_ne heq, hcountEq]
      split_ifs
      · rw [Finset.card_insert_of_notMem (nextMem_notMem other)]
        push_cast
        omega
      · omega
  · obtain ⟨hnotNew, hnotBuffer, hdead⟩ := addSubBuffer_dead hfound
    rw [hsubs, if_neg hnotBuffer, Function.update_of_ne hnotNew]
    exact hcounted.dead other hdead
  · rcases hcounted.addSubBuffer_mem hobject hfound with
      ⟨rfl, rfl⟩ | ⟨heq, old, hold, hparentEq, -, -⟩
    · simpa using hparent
    · rw [Function.update_of_ne heq, hparentEq]
      exact hcounted.parent_eq other old hold
  · by_cases heq : other = state.nextMem
    · subst other
      simpa using hne.symm
    · simpa [heq] using hcounted.parent_ne other
  · rcases hcounted.addSubBuffer_mem hobject hfound with
      ⟨rfl, rfl⟩ | ⟨heq, old, hold, -, hmappingsEq, -⟩
    · simpa using hmappings
    · rw [Function.update_of_ne heq, hmappingsEq]
      exact hcounted.mappings_eq other old hold
  · obtain ⟨found, hfound⟩ := Option.isSome_iff_exists.mp hlive
    change other < state.nextMem + 1
    rcases hcounted.addSubBuffer_mem hobject hfound with ⟨rfl, -⟩ | ⟨-, old, hold, -⟩
    · exact Nat.lt_succ_self _
    · exact Nat.lt_succ_of_lt (hcounted.mem_lt other (by rw [hold]; rfl))

end SubBuffers

/-- The loop over the buffers of a launch. -/
theorem retainBuffers
    {buffers : List (Option MemId)} (hcounted : Counted refs parents maps state)
    (hlive : ¬mayFail → ∀ mem ∈ buffers.reduceOption, (state.mem mem).isSome = true) :
    Meets mayFail (state.retainBuffers buffers) fun after =>
      Counted (fun other => refs other + (buffers.reduceOption.count other : ℕ)) parents
        maps after ∧ MemOnly state after := by
  unfold State.retainBuffers
  induction buffers generalizing state refs with
  | nil => exact ⟨hcounted.congr_refs (by simp [List.reduceOption_nil]), rfl⟩
  | cons buffer buffers ih =>
      rw [List.foldlM_cons]
      cases buffer with
      | none => exact ih hcounted hlive
      | some mem =>
          rw [List.reduceOption_cons_of_some] at hlive ⊢
          refine (hcounted.retainMem fun hnot =>
            hlive hnot mem List.mem_cons_self).seq
              fun middle ⟨hmiddle, honly, hkept⟩ => ?_
          have hstill : ¬mayFail → ∀ other ∈ buffers.reduceOption,
              (middle.mem other).isSome = true := fun hnot other hother =>
            (hkept other).trans (hlive hnot other (List.mem_cons_of_mem _ hother))
          refine (ih hmiddle hstill).mono fun after ⟨hafter, hrest⟩ => ?_
          refine ⟨hafter.congr_refs fun other => ?_, honly.trans hrest⟩
          rw [List.count_cons, List.count_cons]
          push_cast
          simp only [List.count_nil]
          ring

theorem releaseBuffers
    {buffers : List (Option MemId)} (hcounted : Counted refs parents maps state)
    (hrefs : ∀ mem, (buffers.reduceOption.count mem : ℕ) ≤ refs mem) :
    Meets mayFail (state.releaseBuffers buffers) fun after =>
      Counted (fun other => refs other - (buffers.reduceOption.count other : ℕ)) parents
        maps after ∧ MemOnly state after := by
  unfold State.releaseBuffers
  induction buffers generalizing state refs with
  | nil => exact ⟨hcounted.congr_refs (by simp [List.reduceOption_nil]), rfl⟩
  | cons buffer buffers ih =>
      rw [List.foldlM_cons]
      cases buffer with
      | none => exact ih hcounted hrefs
      | some mem =>
          rw [List.reduceOption_cons_of_some] at hrefs ⊢
          have hsplit : ∀ other, (((mem :: buffers.reduceOption).count other : ℕ) : ℤ) =
              ([mem].count other : ℕ) + (buffers.reduceOption.count other : ℕ) := by
            intro other
            rw [List.count_cons, List.count_cons, List.count_nil]
            push_cast
            ring
          have hone : 1 ≤ refs mem := by
            have hmem := hrefs mem
            rw [hsplit, List.count_singleton_self] at hmem
            omega
          refine (hcounted.releaseMem hone).seq fun middle ⟨hmiddle, honly⟩ => ?_
          have hrest : ∀ other, ((buffers.reduceOption.count other : ℕ) : ℤ) ≤
              refs other - ([mem].count other : ℕ) := by
            intro other
            have hother := hrefs other
            rw [hsplit] at hother
            omega
          refine (ih hmiddle hrest).mono fun after ⟨hafter, hafterOnly⟩ => ?_
          refine ⟨hafter.congr_refs fun other => ?_, honly.trans hafterOnly⟩
          rw [hsplit]
          ring

end Counted

end CommandQueue

end Pocl
