import Pocl.RuntimeObjects

/-!
# The lists of the kernels of a program

The kernels that refer to a program are exactly those on its list, each of them
once.  This needs nothing from the client: it holds whatever calls are made, as
long as they are defined.
-/

namespace Pocl

namespace RuntimeObjects

open State

/-- The kernel refers to the program. -/
def Owned (fields : KernelId → Option KernelFields) (kernel : KernelId)
    (program : ProgramId) : Prop :=
  ∃ next, fields kernel = some ⟨some program, next⟩

def nextField (fields : KernelId → Option KernelFields) (kernel : KernelId) :
    Option (Option KernelId) :=
  (fields kernel).map KernelFields.next

/-- The pointers to the first kernels of the programs and the fields of the
kernels, where there are no others than those that have not been freed. -/
structure KernelLists (heads : ProgramId → Option (Option KernelId))
    (fields : KernelId → Option KernelFields) : Prop where
  list : ∀ program head, heads program = some head →
    ∃ kernels, IsSList (nextField fields) head kernels ∧
      ∀ kernel, kernel ∈ kernels ↔ Owned fields kernel program
  live : ∀ kernel program, Owned fields kernel program →
    ∃ head, heads program = some head

namespace KernelLists

variable {heads : ProgramId → Option (Option KernelId)}
  {fields : KernelId → Option KernelFields}

theorem empty : KernelLists (fun _ => none) (fun _ => none) := by
  constructor
  · intro program head hhead
    cases hhead
  · rintro kernel program ⟨next, hnext⟩
    cases hnext

theorem addProgram
    (hlists : KernelLists heads fields) {program : ProgramId}
    (hfresh : heads program = none) :
    KernelLists (Function.update heads program (some none)) fields := by
  constructor
  · intro other head hhead
    by_cases heq : other = program
    · subst other
      rw [Function.update_self, Option.some.injEq] at hhead
      subst hhead
      refine ⟨[], .nil, fun kernel => ⟨fun hmem => absurd hmem List.not_mem_nil, ?_⟩⟩
      intro howned
      obtain ⟨head, hhead⟩ := hlists.live kernel program howned
      rw [hfresh] at hhead
      cases hhead
    · rw [Function.update_of_ne heq] at hhead
      exact hlists.list other head hhead
  · intro kernel other howned
    by_cases heq : other = program
    · subst other
      exact ⟨none, Function.update_self _ _ _⟩
    · rw [Function.update_of_ne heq]
      exact hlists.live kernel other howned

theorem nextField_update_of_ne {kernel other : KernelId} {new : Option KernelFields}
    (hne : other ≠ kernel) :
    nextField (Function.update fields kernel new) other = nextField fields other := by
  unfold nextField
  rw [Function.update_of_ne hne]

theorem owned_update_of_ne {kernel other : KernelId} {new : Option KernelFields}
    {program : ProgramId} (hne : other ≠ kernel) :
    Owned (Function.update fields kernel new) other program ↔
      Owned fields other program := by
  unfold Owned
  rw [Function.update_of_ne hne]

theorem nextField_of_owned {kernel : KernelId} {next : Option KernelId}
    {program : Option ProgramId} (hfields : fields kernel = some ⟨program, next⟩) :
    nextField fields kernel = some next := by
  unfold nextField
  rw [hfields]
  rfl

/-- A new kernel at the front of the list. -/
theorem addKernel
    (hlists : KernelLists heads fields) {program : ProgramId} {kernel : KernelId}
    {head : Option KernelId} (hhead : heads program = some head)
    (hfresh : fields kernel = none) :
    KernelLists (Function.update heads program (some (some kernel)))
      (Function.update fields kernel (some ⟨some program, head⟩)) := by
  have hself : Function.update fields kernel (some ⟨some program, head⟩) kernel =
      some ⟨some program, head⟩ := Function.update_self _ _ _
  have hnot : ∀ other, ¬Owned fields kernel other := by
    rintro other ⟨next, hnext⟩
    rw [hfresh] at hnext
    cases hnext
  have hsame : ∀ {other : ProgramId} {kernels : List KernelId},
      (∀ record, record ∈ kernels ↔ Owned fields record other) →
      ∀ record ∈ kernels, record ≠ kernel := by
    rintro other kernels hmem record hrecord rfl
    exact hnot other ((hmem record).mp hrecord)
  constructor
  · intro other start hstart
    by_cases heq : other = program
    · subst other
      rw [Function.update_self, Option.some.injEq] at hstart
      subst hstart
      obtain ⟨kernels, hlist, hmem⟩ := hlists.list program head hhead
      refine ⟨kernel :: kernels, .cons (nextField_of_owned hself) (hlist.congr ?_), ?_⟩
      · intro record hrecord
        exact nextField_update_of_ne (hsame hmem record hrecord)
      · intro record
        rw [List.mem_cons]
        by_cases hrecord : record = kernel
        · subst record
          exact ⟨fun _ => ⟨head, hself⟩, fun _ => Or.inl rfl⟩
        · rw [owned_update_of_ne hrecord, ← hmem record]
          exact ⟨fun hor => hor.resolve_left hrecord, Or.inr⟩
    · rw [Function.update_of_ne heq] at hstart
      obtain ⟨kernels, hlist, hmem⟩ := hlists.list other start hstart
      refine ⟨kernels, hlist.congr ?_, ?_⟩
      · intro record hrecord
        exact nextField_update_of_ne (hsame hmem record hrecord)
      · intro record
        by_cases hrecord : record = kernel
        · subst record
          constructor
          · exact fun hin => absurd ((hmem kernel).mp hin) (hnot other)
          · rintro ⟨next, hnext⟩
            rw [hself] at hnext
            cases hnext
            exact absurd rfl heq
        · rw [owned_update_of_ne hrecord, hmem record]
  · intro record other howned
    by_cases heq : other = program
    · subst other
      exact ⟨some kernel, Function.update_self _ _ _⟩
    · rw [Function.update_of_ne heq]
      by_cases hrecord : record = kernel
      · subst record
        obtain ⟨next, hnext⟩ := howned
        rw [hself] at hnext
        cases hnext
        exact absurd rfl heq
      · rw [owned_update_of_ne hrecord] at howned
        exact hlists.live record other howned

/-- The fields when the kernels of a program have no program any more. -/
def detached (fields : KernelId → Option KernelFields) (program : ProgramId)
    (kernel : KernelId) : Option KernelFields :=
  (fields kernel).map fun found =>
    if found.program = some program then { found with program := none } else found

theorem nextField_detached (program : ProgramId) :
    nextField (detached fields program) = nextField fields := by
  funext kernel
  unfold nextField detached
  cases fields kernel with
  | none => rfl
  | some found =>
      by_cases hprogram : found.program = some program
      · simp [hprogram]
      · simp [hprogram]

theorem owned_detached {program other : ProgramId} {kernel : KernelId} :
    Owned (detached fields program) kernel other ↔
      other ≠ program ∧ Owned fields kernel other := by
  unfold Owned detached
  cases hfields : fields kernel with
  | none => simp
  | some found =>
      obtain ⟨owner, next⟩ := found
      by_cases howner : owner = some program
      · subst howner
        simp only [Option.map_some, if_true, Option.some.injEq, KernelFields.mk.injEq]
        constructor
        · rintro ⟨_, hnone, _⟩
          cases hnone
        · rintro ⟨hne, _, heq, _⟩
          exact absurd heq.symm hne
      · simp only [Option.map_some, howner, if_false, Option.some.injEq,
          KernelFields.mk.injEq]
        constructor
        · rintro ⟨after, heq, hafter⟩
          exact ⟨fun hother => howner (hother ▸ heq), after, heq, hafter⟩
        · rintro ⟨_, after, heq, hafter⟩
          exact ⟨after, heq, hafter⟩

/-- A program is freed. -/
theorem dropProgram (hlists : KernelLists heads fields) (program : ProgramId) :
    KernelLists (Function.update heads program none) (detached fields program) := by
  constructor
  · intro other head hhead
    by_cases heq : other = program
    · subst other
      rw [Function.update_self] at hhead
      cases hhead
    · rw [Function.update_of_ne heq] at hhead
      obtain ⟨kernels, hlist, hmem⟩ := hlists.list other head hhead
      refine ⟨kernels, by rwa [nextField_detached], fun kernel => ?_⟩
      rw [hmem kernel, owned_detached]
      exact ⟨fun howned => ⟨heq, howned⟩, And.right⟩
  · intro kernel other howned
    rw [owned_detached] at howned
    rw [Function.update_of_ne howned.1]
    exact hlists.live kernel other howned.2

theorem owned_drop {kernel record : KernelId} {other : ProgramId} :
    Owned (Function.update fields kernel none) record other ↔
      record ≠ kernel ∧ Owned fields record other := by
  by_cases hrecord : record = kernel
  · subst record
    constructor
    · rintro ⟨after, hafter⟩
      rw [Function.update_self] at hafter
      cases hafter
    · exact fun hand => absurd rfl hand.1
  · rw [owned_update_of_ne hrecord]
    exact ⟨fun howned => ⟨hrecord, howned⟩, And.right⟩

/-- A kernel without a program is freed. -/
theorem dropDetached
    (hlists : KernelLists heads fields) {kernel : KernelId} {next : Option KernelId}
    (hfields : fields kernel = some ⟨none, next⟩) :
    KernelLists heads (Function.update fields kernel none) := by
  have hnot : ∀ other, ¬Owned fields kernel other := by
    rintro other ⟨after, hafter⟩
    rw [hfields] at hafter
    cases hafter
  have howned : ∀ record other,
      Owned (Function.update fields kernel none) record other ↔
        Owned fields record other := by
    intro record other
    rw [owned_drop]
    constructor
    · exact And.right
    · intro howned
      refine ⟨?_, howned⟩
      rintro rfl
      exact hnot other howned
  constructor
  · intro program head hhead
    obtain ⟨kernels, hlist, hmem⟩ := hlists.list program head hhead
    refine ⟨kernels, hlist.congr fun record hrecord => ?_, fun record => ?_⟩
    · refine nextField_update_of_ne ?_
      rintro rfl
      exact hnot program ((hmem record).mp hrecord)
    · rw [hmem record, howned]
  · intro record program hrecord
    rw [howned] at hrecord
    exact hlists.live record program hrecord

section Unlink

variable {program : ProgramId} {kernel : KernelId} {next : Option KernelId}

theorem not_mem_other
    (hfields : fields kernel = some ⟨some program, next⟩) {other : ProgramId}
    (hne : other ≠ program) {kernels : List KernelId}
    (hmem : ∀ record, record ∈ kernels ↔ Owned fields record other) :
    kernel ∉ kernels := by
  intro hin
  obtain ⟨after, hafter⟩ := (hmem kernel).mp hin
  rw [hfields] at hafter
  cases hafter
  exact hne rfl

/-- A kernel is taken from the front of the list and freed. -/
theorem unlinkHead
    (hlists : KernelLists heads fields)
    (hfields : fields kernel = some ⟨some program, next⟩)
    (hhead : heads program = some (some kernel)) :
    KernelLists (Function.update heads program (some next))
      (Function.update fields kernel none) := by
  constructor
  · intro other head hother
    by_cases heq : other = program
    · subst other
      rw [Function.update_self, Option.some.injEq] at hother
      subst hother
      obtain ⟨kernels, hlist, hmem⟩ := hlists.list program _ hhead
      have hnodup := hlist.nodup
      cases hlist with
      | @cons _ found rest hfetch hrest =>
          rw [nextField_of_owned hfields, Option.some.injEq] at hfetch
          subst hfetch
          have hnot := (List.nodup_cons.mp hnodup).1
          refine ⟨rest, hrest.congr fun record hrecord => ?_, fun record => ?_⟩
          · exact nextField_update_of_ne fun hrecordEq => hnot (hrecordEq ▸ hrecord)
          · rw [owned_drop, ← hmem record, List.mem_cons]
            constructor
            · intro hrecord
              exact ⟨fun hrecordEq => hnot (hrecordEq ▸ hrecord), Or.inr hrecord⟩
            · exact fun hand => hand.2.resolve_left hand.1
    · rw [Function.update_of_ne heq] at hother
      obtain ⟨kernels, hlist, hmem⟩ := hlists.list other head hother
      have hnot := not_mem_other hfields heq hmem
      refine ⟨kernels, hlist.congr fun record hrecord => ?_, fun record => ?_⟩
      · exact nextField_update_of_ne fun hrecordEq => hnot (hrecordEq ▸ hrecord)
      · rw [owned_drop, ← hmem record]
        exact ⟨fun hin => ⟨fun hrecordEq => hnot (hrecordEq ▸ hin), hin⟩, And.right⟩
  · intro record other howned
    rw [owned_drop] at howned
    obtain ⟨head, hother⟩ := hlists.live record other howned.2
    by_cases heq : other = program
    · subst other
      exact ⟨next, Function.update_self _ _ _⟩
    · exact ⟨head, by rw [Function.update_of_ne heq, hother]⟩

/-- A kernel is taken from behind another one and freed. -/
theorem unlinkNext
    (hlists : KernelLists heads fields)
    (hfields : fields kernel = some ⟨some program, next⟩) {head : Option KernelId}
    (hhead : heads program = some head) {before after : List KernelId}
    {last : KernelId} {old : Option KernelId}
    (hlast : fields last = some ⟨some program, old⟩)
    (hlist : IsSList (nextField fields) head (before ++ last :: kernel :: after)) :
    KernelLists heads (Function.update
      (Function.update fields last (some ⟨some program, next⟩)) kernel none) := by
  have hne : last ≠ kernel := by
    rintro rfl
    have hnodup := (List.nodup_append.mp hlist.nodup).2.1
    exact (List.nodup_cons.mp hnodup).1 List.mem_cons_self
  have hupdated : Function.update fields last (some ⟨some program, next⟩) kernel =
      some ⟨some program, next⟩ := by
    rw [Function.update_of_ne hne.symm, hfields]
  have howned : ∀ record other,
      Owned (Function.update fields last (some ⟨some program, next⟩)) record other ↔
        Owned fields record other := by
    intro record other
    by_cases hrecord : record = last
    · subst record
      unfold Owned
      rw [Function.update_self, hlast]
      constructor
      · rintro ⟨_, heq⟩
        cases heq
        exact ⟨old, rfl⟩
      · rintro ⟨_, heq⟩
        cases heq
        exact ⟨next, rfl⟩
    · exact owned_update_of_ne hrecord
  constructor
  · intro other start hstart
    obtain ⟨kernels, hother, hmem⟩ := hlists.list other start hstart
    by_cases heq : other = program
    · subst other
      rw [hhead, Option.some.injEq] at hstart
      subst hstart
      have hkernels := hother.unique hlist
      subst hkernels
      refine ⟨before ++ last :: after, ?_, fun record => ?_⟩
      · refine hlist.unlink (nextField_of_owned hfields) ?_ ?_
        · rw [nextField_update_of_ne hne]
          exact nextField_of_owned (Function.update_self _ _ _)
        · intro record hrecord htarget
          rw [nextField_update_of_ne htarget, nextField_update_of_ne hrecord]
      · rw [owned_drop, howned, ← hmem record]
        have hnodup := hlist.nodup
        constructor
        · intro hin
          refine ⟨?_, by simp only [List.mem_append, List.mem_cons] at hin ⊢; tauto⟩
          rintro rfl
          rw [List.nodup_append] at hnodup
          rcases List.mem_append.mp hin with hbefore | hafter
          · exact hnodup.2.2 record hbefore record (by simp) rfl
          · have hrest := hnodup.2.1
            simp only [List.nodup_cons, List.mem_cons, not_or] at hrest
            rcases List.mem_cons.mp hafter with rfl | hafter
            · exact hrest.1.1 rfl
            · exact hrest.2.1 hafter
        · rintro ⟨hrecord, hin⟩
          simp only [List.mem_append, List.mem_cons] at hin ⊢
          tauto
    · have hnot := not_mem_other hfields heq hmem
      have hnotLast := not_mem_other hlast heq hmem
      refine ⟨kernels, hother.congr fun record hrecord => ?_, fun record => ?_⟩
      · have hkernelNe : record ≠ kernel := fun heq => hnot (heq ▸ hrecord)
        have hlastNe : record ≠ last := fun heq => hnotLast (heq ▸ hrecord)
        rw [nextField_update_of_ne hkernelNe, nextField_update_of_ne hlastNe]
      · rw [owned_drop, howned, ← hmem record]
        exact ⟨fun hin => ⟨fun hrecordEq => hnot (hrecordEq ▸ hin), hin⟩, And.right⟩
  · intro record other hrecord
    rw [owned_drop, howned] at hrecord
    exact hlists.live record other hrecord.2

end Unlink

end KernelLists

end RuntimeObjects

end Pocl
