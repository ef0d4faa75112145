import Pocl.ArgumentStorage

/-!
# What a call of `clSetKernelArg` changes

Every copy belongs to one entry only, in every kernel object that calls lead to.  A call may
leave an entry with a pointer to a block that has been freed: the old copy is freed before
the new one is allocated.
-/

namespace Pocl.ArgumentStorage

open KernelArguments ArgumentAllocation

/-- The first `int` of the value of a pointer is tested. -/
def StoresNull (kinds : ArgKinds) (argValue : Option (List UInt8)) : Prop :=
  ∀ bytes, argValue = some bytes →
    kinds.isPointer = true ∧ (bytes.take 4).all (fun byte => byte == 0) = true

/-- No value, or a null handle for a buffer. -/
def MeansNull (kinds : ArgKinds) (argValue : Option (List UInt8)) : Prop :=
  ∀ bytes, argValue = some bytes →
    kinds.isPointer = true ∧ kinds.isLocal = false ∧
      (bytes.take 8).all (fun byte => byte == 0) = true

/-- The client passes a value of the given size, and a pointer for a pointer. -/
structure Readable
    (state : State) (argIndex : ℕ) (argSize : SizeT) (bytes : List UInt8) : Prop where
  size : argSize.toNat ≤ bytes.length
  pointer : ∀ kinds argument, state.kernel.args[argIndex]? = some (kinds, argument) →
    kinds.isPointer = true → 8 ≤ bytes.length

/-- Nothing has changed for the client. -/
structure Unchanged (before after : State) : Prop where
  kernel : after.kernel = before.kernel
  values : ∀ argument ∈ before.kernel.dynArguments, ∀ block,
    argument.value = some block → after.heap block = before.heap block

/-- One entry has changed, and it holds a copy of its own. -/
structure UpdatesEntry
    (before after : State) (argIndex : ℕ) (argSize : SizeT) (argValue : Option (List UInt8))
    (kinds : ArgKinds) (argument : StoredArgument) : Prop where
  entry : ∃ old, before.kernel.args[argIndex]? = some (kinds, old)
  kernel : after.kernel =
    { before.kernel with args := before.kernel.args.set argIndex (kinds, argument) }
  size : argument.size = argSize
  null : argument.value = none ↔ MeansNull kinds argValue
  contents : ∀ block, argument.value = some block →
    after.heap block = argValue.map (List.take argSize.toNat)
  own : ∀ block, argument.value = some block → ∀ other index, index ≠ argIndex →
    after.kernel.dynArguments[index]? = some other → other.value ≠ some block
  others : ∀ other index, index ≠ argIndex →
    before.kernel.dynArguments[index]? = some other → ∀ block, other.value = some block →
      after.heap block = before.heap block

def WellBehaved
    (build : Build) (memory : HostMemory) (state : State) (argIndex : ℕ) (argSize : SizeT)
    (argValue : Option (List UInt8)) : Prop :=
  ∃ code after,
    clSetKernelArg build memory state argIndex argSize argValue = some (code, after) ∧
      (code ≠ .success ∧ Unchanged state after ∨
        code = .success ∧ argIndex < state.kernel.args.length ∧
          ∃ kinds argument,
            UpdatesEntry state after argIndex argSize argValue kinds argument)

/-- The old copy can be freed. -/
def Freeable (state : State) (argument : StoredArgument) : Prop :=
  ∀ block, argument.value = some block → state.heap block ≠ none

/-- An update of an existing entry. -/
structure EntrySafe
    (build : Build) (memory : HostMemory) (state : State) (argSize : SizeT)
    (argValue : Option (List UInt8)) (kinds : ArgKinds) (argument : StoredArgument) :
    Prop where
  freeable : Freeable state argument
  null : StoresNull kinds argValue →
    MeansNull kinds argValue ∧
      (retypes build state.kernel = true → kinds.isPointer = true ∧ kinds.isLocal = true)
  copy : ¬ StoresNull kinds argValue →
    allocates build memory argSize = true ∨ argument.value = none

def UpdateSafe
    (build : Build) (memory : HostMemory) (state : State) (argIndex : ℕ) (argSize : SizeT)
    (argValue : Option (List UInt8)) : Prop :=
  state.kernel.args.length < argIndex ∨ state.kernel.hasArguments = false ∨
    ∃ kinds argument, state.kernel.args[argIndex]? = some (kinds, argument) ∧
      EntrySafe build memory state argSize argValue kinds argument

section Entries

variable {kernel : KernelObject} {argIndex : ℕ} {kinds : ArgKinds}
  {argument first : StoredArgument} {rest : List StoredArgument}

theorem KernelObject.dynArguments_set (hlt : argIndex < kernel.args.length) :
    ({ kernel with args := kernel.args.set argIndex (kinds, argument) } :
      KernelObject).dynArguments = kernel.dynArguments.set argIndex argument := by
  have hlength : argIndex < (kernel.args.map Prod.snd).length := by
    rwa [List.length_map]
  change (kernel.args.set argIndex (kinds, argument)).map Prod.snd ++ kernel.locals = _
  rw [List.map_set, KernelObject.dynArguments, List.set_append_left _ _ hlength]

theorem KernelObject.dynArguments_locals (hlocals : kernel.locals = first :: rest) :
    ({ kernel with locals := argument :: rest } : KernelObject).dynArguments =
      kernel.dynArguments.set kernel.args.length argument := by
  have hlength : (kernel.args.map Prod.snd).length ≤ kernel.args.length := by
    rw [List.length_map]
  change kernel.args.map Prod.snd ++ argument :: rest = _
  rw [KernelObject.dynArguments, List.set_append_right _ _ hlength, hlocals, List.length_map,
    Nat.sub_self]
  rfl

theorem KernelObject.dynArguments_entry
    (hentry : kernel.args[argIndex]? = some (kinds, argument)) :
    kernel.dynArguments[argIndex]? = some argument := by
  have hlt := (List.getElem?_eq_some_iff.mp hentry).1
  rw [KernelObject.dynArguments, List.getElem?_append_left (by rwa [List.length_map]),
    List.getElem?_map, hentry]
  rfl

end Entries

/-- No two entries point to one block. -/
structure Separate (state : State) : Prop where
  below : ∀ (index : ℕ) (argument : StoredArgument),
    state.kernel.dynArguments[index]? = some argument →
      ∀ block, argument.value = some block → block < state.nextBlock
  distinct : ∀ (index index' : ℕ) (argument argument' : StoredArgument),
    state.kernel.dynArguments[index]? = some argument →
      state.kernel.dynArguments[index']? = some argument' → ∀ block,
        argument.value = some block → argument'.value = some block → index = index'

section Reachability

variable {before after state : State}

/-- One entry is replaced, by a null pointer or by a pointer to a new block. -/
theorem Separate.set
    (hseparate : Separate before) (index : ℕ) (new : StoredArgument)
    (hdyn : after.kernel.dynArguments = before.kernel.dynArguments.set index new)
    (hnext : before.nextBlock ≤ after.nextBlock)
    (hnew : ∀ block, new.value = some block →
      before.nextBlock ≤ block ∧ block < after.nextBlock) : Separate after := by
  have hcases : ∀ other argument, after.kernel.dynArguments[other]? = some argument →
      other = index ∧ argument = new ∨
        other ≠ index ∧ before.kernel.dynArguments[other]? = some argument := by
    intro other argument hget
    rw [hdyn] at hget
    by_cases hother : other = index
    · subst hother
      rw [List.getElem?_set_self'] at hget
      obtain ⟨_, -, heq⟩ := Option.map_eq_some_iff.mp hget
      exact .inl ⟨rfl, heq.symm⟩
    · rw [List.getElem?_set_ne (Ne.symm hother)] at hget
      exact .inr ⟨hother, hget⟩
  constructor
  · intro other argument hget block hblock
    rcases hcases other argument hget with ⟨-, rfl⟩ | ⟨-, hold⟩
    · exact (hnew block hblock).2
    · exact lt_of_lt_of_le (hseparate.below _ _ hold _ hblock) hnext
  · intro first second argument argument' hfirst hsecond block hblock hblock'
    rcases hcases first argument hfirst with ⟨rfl, rfl⟩ | ⟨-, hold⟩
    · rcases hcases second argument' hsecond with ⟨rfl, -⟩ | ⟨-, hold'⟩
      · rfl
      · have hlt := hseparate.below _ _ hold' _ hblock'
        exact absurd hlt (not_lt.mpr (hnew block hblock).1)
    · rcases hcases second argument' hsecond with ⟨rfl, rfl⟩ | ⟨-, hold'⟩
      · have hlt := hseparate.below _ _ hold _ hblock
        exact absurd hlt (not_lt.mpr (hnew block hblock').1)
      · exact hseparate.distinct _ _ _ _ hold hold' _ hblock hblock'

theorem Separate.of_kernel
    (hseparate : Separate before) (hkernel : after.kernel = before.kernel)
    (hnext : after.nextBlock = before.nextBlock) : Separate after := by
  constructor
  · rw [hkernel, hnext]
    exact hseparate.below
  · rw [hkernel]
    exact hseparate.distinct

structure Freed (state freed : State) (value : Option ℕ) : Prop where
  kernel : freed.kernel = state.kernel
  nextBlock : freed.nextBlock = state.nextBlock
  heap : ∀ block, value ≠ some block → freed.heap block = state.heap block

theorem State.free_eq_some {freed : State} {value : Option ℕ}
    (hfree : state.free value = some freed) :
    Freed state freed value ∧ ∀ block, value = some block →
      state.heap block ≠ none ∧ freed.heap block = none := by
  cases value with
  | none =>
      cases hfree
      exact ⟨⟨rfl, rfl, fun _ _ => rfl⟩, fun _ heq => by cases heq⟩
  | some block =>
      by_cases hheap : state.heap block = none
      · simp [State.free, hheap] at hfree
      · simp only [State.free, if_neg hheap, Option.some.injEq] at hfree
        subst hfree
        refine ⟨⟨rfl, rfl, fun other hne => ?_⟩, fun other heq => ?_⟩
        · exact Function.update_of_ne (fun heq => hne (congrArg some heq.symm)) _ _
        · cases heq
          exact ⟨hheap, Function.update_self _ _ _⟩

theorem State.free_some_of {value : Option ℕ}
    (hheap : ∀ block, value = some block → state.heap block ≠ none) :
    ∃ freed, state.free value = some freed := by
  cases value with
  | none => exact ⟨state, rfl⟩
  | some block => exact ⟨_, if_neg (hheap block rfl)⟩

variable {build : Build} {memory : HostMemory} {argIndex : ℕ} {argSize : SizeT}
  {argValue : Option (List UInt8)} {code : ClCode}

/-- What a call can do to the object. -/
theorem clSetKernelArg_cases
    (hset : clSetKernelArg build memory before argIndex argSize argValue =
      some (code, after)) :
    after = before ∨
      (∃ kinds argument freed, before.kernel.args[argIndex]? = some (kinds, argument) ∧
        before.free argument.value = some freed ∧
          (after = freed ∨
            (∃ bytes, after = freed.storeCopy argIndex kinds argSize bytes) ∨
            ∃ kinds', after = freed.setArgument argIndex kinds' ⟨argSize, none⟩)) ∨
      ∃ first rest freed, before.kernel.locals = first :: rest ∧
        before.free first.value = some freed ∧
          after = { freed with
            kernel := { freed.kernel with locals := ⟨argSize, none⟩ :: rest } } := by
  unfold clSetKernelArg at hset
  split at hset
  next => exact .inl (Prod.mk.inj (Option.some.inj hset)).2.symm
  split at hset
  next => exact .inl (Prod.mk.inj (Option.some.inj hset)).2.symm
  split at hset
  next kinds argument hentry =>
    obtain ⟨stores, -, hset⟩ := Option.bind_eq_some_iff.mp hset
    obtain ⟨freed, hfree, hset⟩ := Option.bind_eq_some_iff.mp hset
    refine .inr (.inl ⟨kinds, argument, freed, hentry, hfree, ?_⟩)
    split at hset
    next bytes =>
      split at hset
      next => exact .inl (Prod.mk.inj (Option.some.inj hset)).2.symm
      split at hset
      next => cases hset
      next => exact .inr (.inl ⟨_, (Prod.mk.inj (Option.some.inj hset)).2.symm⟩)
    next => exact .inr (.inr ⟨_, (Prod.mk.inj (Option.some.inj hset)).2.symm⟩)
  next =>
    split at hset
    next first rest hlocals =>
      split at hset
      next => cases hset
      next =>
        obtain ⟨freed, hfree, hset⟩ := Option.bind_eq_some_iff.mp hset
        exact .inr (.inr ⟨first, rest, freed, hlocals, hfree,
          (Prod.mk.inj (Option.some.inj hset)).2.symm⟩)
    next => cases hset

theorem Separate.clSetKernelArg
    (hseparate : Separate before)
    (hset : clSetKernelArg build memory before argIndex argSize argValue =
      some (code, after)) : Separate after := by
  rcases clSetKernelArg_cases hset with
    rfl | ⟨kinds, argument, freed, hentry, hfree, hafter⟩ | ⟨first, rest, freed, hlocals,
      hfree, rfl⟩
  · exact hseparate
  · obtain ⟨hfreed, -⟩ := State.free_eq_some hfree
    have hlt : argIndex < freed.kernel.args.length := by
      rw [hfreed.kernel]
      exact (List.getElem?_eq_some_iff.mp hentry).1
    rcases hafter with rfl | ⟨bytes, rfl⟩ | ⟨kinds', rfl⟩
    · exact hseparate.of_kernel hfreed.kernel hfreed.nextBlock
    · refine hseparate.set argIndex ⟨argSize, some freed.nextBlock⟩ ?_ ?_ ?_
      · rw [← hfreed.kernel]
        exact KernelObject.dynArguments_set hlt
      · rw [← hfreed.nextBlock]
        exact Nat.le_succ _
      · intro block hblock
        cases hblock
        rw [← hfreed.nextBlock]
        exact ⟨le_rfl, Nat.lt_succ_self _⟩
    · refine hseparate.set argIndex ⟨argSize, none⟩ ?_ ?_ ?_
      · rw [← hfreed.kernel]
        exact KernelObject.dynArguments_set hlt
      · exact hfreed.nextBlock.ge
      · intro block hblock
        cases hblock
  · obtain ⟨hfreed, -⟩ := State.free_eq_some hfree
    rw [← hfreed.kernel] at hlocals
    refine hseparate.set freed.kernel.args.length ⟨argSize, none⟩ ?_ ?_ ?_
    · rw [← hfreed.kernel]
      exact KernelObject.dynArguments_locals hlocals
    · exact hfreed.nextBlock.ge
    · intro block hblock
      cases hblock

theorem Reachable.separate (hreachable : Reachable build state) : Separate state := by
  induction hreachable with
  | @create kinds localSizes hasSource allocated state hcreate =>
      have hnull : ∀ argument ∈ state.kernel.dynArguments, argument.value = none := by
        unfold clCreateKernel at hcreate
        split at hcreate
        next =>
          cases hcreate
          intro argument hargument
          rcases List.mem_append.mp hargument with hargs | hlocals
          · rw [List.map_map] at hargs
            obtain ⟨_, -, rfl⟩ := List.mem_map.mp hargs
            rfl
          · obtain ⟨_, -, rfl⟩ := List.mem_map.mp hlocals
            rfl
        next => cases hcreate
      have hfalse : ∀ (index : ℕ) (argument : StoredArgument),
          state.kernel.dynArguments[index]? = some argument →
            ∀ block, argument.value ≠ some block := by
        intro index argument hget block hblock
        rw [hnull argument (List.mem_of_getElem? hget)] at hblock
        cases hblock
      exact ⟨fun index argument hget block hblock =>
          (hfalse index argument hget block hblock).elim,
        fun index _ argument _ hget _ block hblock _ =>
          (hfalse index argument hget block hblock).elim⟩
  | set _ hset ih => exact ih.clSetKernelArg hset

end Reachability

section Updates

variable {build : Build} {memory : HostMemory} {state freed : State} {argIndex : ℕ}
  {argSize : SizeT} {argValue : Option (List UInt8)} {kinds : ArgKinds}
  {argument : StoredArgument}

theorem storesValue_of_null
    (hpointer : ∀ bytes, argValue = some bytes → kinds.isPointer = true → 8 ≤ bytes.length)
    (hnull : StoresNull kinds argValue) : storesValue kinds argValue = some false := by
  cases argValue with
  | none => rfl
  | some bytes =>
      obtain ⟨hkind, hzero⟩ := hnull bytes rfl
      have hlength := hpointer bytes rfl hkind
      have hlt : ¬ bytes.length < 4 := by omega
      rw [storesValue, if_neg (by simp [hkind]), if_neg hlt, hzero]
      rfl

theorem storesValue_of_not_null
    (hpointer : ∀ bytes, argValue = some bytes → kinds.isPointer = true → 8 ≤ bytes.length)
    (hvalue : ¬ StoresNull kinds argValue) :
    storesValue kinds argValue = some true ∧ ∃ bytes, argValue = some bytes := by
  cases argValue with
  | none => exact absurd (fun _ heq => by cases heq) hvalue
  | some bytes =>
      refine ⟨?_, bytes, rfl⟩
      cases hkind : kinds.isPointer with
      | false => rw [storesValue, hkind]; rfl
      | true =>
          have hlength := hpointer bytes rfl hkind
          have hlt : ¬ bytes.length < 4 := by omega
          have hnonzero : (bytes.take 4).all (fun byte => byte == 0) = false := by
            rw [Bool.eq_false_iff]
            refine fun hzero => hvalue fun bytes' heq => ?_
            cases heq
            exact ⟨hkind, hzero⟩
          rw [storesValue, if_neg (by simp [hkind]), if_neg hlt, hnonzero]
          rfl

theorem MeansNull.storesNull (hnull : MeansNull kinds argValue) : StoresNull kinds argValue := by
  intro bytes heq
  obtain ⟨hpointer, -, hzero⟩ := hnull bytes heq
  refine ⟨hpointer, ?_⟩
  rw [List.all_eq_true] at hzero ⊢
  intro byte hbyte
  have htake : bytes.take 4 <+: bytes.take 8 := List.take_prefix_take_left (by decide)
  exact hzero byte (htake.subset hbyte)

theorem clearedKinds_eq_iff {rewrites : Bool} :
    clearedKinds rewrites kinds = kinds ↔
      (rewrites = true → kinds.isPointer = true ∧ kinds.isLocal = true) := by
  cases rewrites with
  | false => simp [clearedKinds]
  | true =>
      obtain ⟨isPointer, isLocal, isImage, isSampler, isStruct⟩ := kinds
      simp [clearedKinds, eq_comm]

theorem Separate.freed_others
    (hseparate : Separate state) (hfreed : Freed state freed argument.value)
    (hentry : state.kernel.dynArguments[argIndex]? = some argument)
    {other : StoredArgument} {index : ℕ} (hne : index ≠ argIndex)
    (hother : state.kernel.dynArguments[index]? = some other) {block : ℕ}
    (hblock : other.value = some block) : freed.heap block = state.heap block :=
  hfreed.heap block fun hvalue =>
    hne (hseparate.distinct _ _ _ _ hother hentry _ hblock hvalue)

section Entry

variable (hargIndex : argIndex ≤ state.kernel.args.length)
  (harguments : state.kernel.hasArguments = true)
  (hentry : state.kernel.args[argIndex]? = some (kinds, argument))
  (hpointer : ∀ bytes, argValue = some bytes → kinds.isPointer = true → 8 ≤ bytes.length)

include hargIndex harguments hentry hpointer

theorem clSetKernelArg_null (hnull : StoresNull kinds argValue) :
    clSetKernelArg build memory state argIndex argSize argValue =
      (state.free argument.value).map fun freed =>
        (.success, freed.setArgument argIndex
          (clearedKinds (retypes build state.kernel) kinds) ⟨argSize, none⟩) := by
  have hstores := storesValue_of_null hpointer hnull
  unfold clSetKernelArg
  rw [if_neg (not_lt.mpr hargIndex), if_neg (by simp [harguments])]
  simp only [hentry, hstores, Option.bind_eq_bind, Option.bind_some]
  cases state.free argument.value <;> rfl

theorem clSetKernelArg_refused
    (hvalue : ¬ StoresNull kinds argValue) (hrefused : allocates build memory argSize = false) :
    clSetKernelArg build memory state argIndex argSize argValue =
      (state.free argument.value).map fun freed => (.outOfHostMemory, freed) := by
  obtain ⟨hstores, bytes, rfl⟩ := storesValue_of_not_null hpointer hvalue
  unfold clSetKernelArg
  rw [if_neg (not_lt.mpr hargIndex), if_neg (by simp [harguments])]
  simp only [hentry, hstores, Option.bind_eq_bind, Option.bind_some, if_pos hrefused]
  cases state.free argument.value <;> rfl

theorem clSetKernelArg_stored {bytes : List UInt8} (hargValue : argValue = some bytes)
    (hvalue : ¬ StoresNull kinds argValue) (hsize : argSize.toNat ≤ bytes.length)
    (hallocates : allocates build memory argSize = true) :
    clSetKernelArg build memory state argIndex argSize argValue =
      (state.free argument.value).map fun freed =>
        (.success, freed.storeCopy argIndex kinds argSize (bytes.take argSize.toNat)) := by
  have hstores := (storesValue_of_not_null hpointer hvalue).1
  subst hargValue
  unfold clSetKernelArg
  rw [if_neg (not_lt.mpr hargIndex), if_neg (by simp [harguments])]
  simp only [hentry, hstores, Option.bind_eq_bind, Option.bind_some, hallocates,
    Bool.true_eq_false, if_false, if_neg (not_lt.mpr hsize)]
  cases state.free argument.value <;> rfl

end Entry

theorem State.free_isSome_iff :
    (∃ freed, state.free argument.value = some freed) ↔ Freeable state argument := by
  constructor
  · rintro ⟨freed, hfree⟩ block hblock
    exact ((State.free_eq_some hfree).2 block hblock).1
  · exact State.free_some_of

theorem UpdatesEntry.old
    {before after : State} {kinds' : ArgKinds} {argument' : StoredArgument}
    (hentry : before.kernel.args[argIndex]? = some (kinds, argument))
    (hupdates : UpdatesEntry before after argIndex argSize argValue kinds' argument') :
    kinds' = kinds ∧ after.kernel.args[argIndex]? = some (kinds, argument') := by
  obtain ⟨old, hold⟩ := hupdates.entry
  rw [hentry, Option.some.injEq, Prod.mk.injEq] at hold
  obtain ⟨rfl, -⟩ := hold
  refine ⟨rfl, ?_⟩
  rw [hupdates.kernel]
  exact List.getElem?_set_self (List.getElem?_eq_some_iff.mp hentry).1

theorem State.setArgument_entry
    {before : State} {kinds' : ArgKinds} {argument' : StoredArgument}
    (hentry : before.kernel.args[argIndex]? = some (kinds, argument)) :
    (before.setArgument argIndex kinds' argument').kernel.args[argIndex]? =
      some (kinds', argument') :=
  List.getElem?_set_self (List.getElem?_eq_some_iff.mp hentry).1

section Outcomes

variable (hseparate : Separate state)
  (hentry : state.kernel.args[argIndex]? = some (kinds, argument))

include hseparate hentry

theorem UpdatesEntry.of_null
    (hnull : MeansNull kinds argValue) (hfreed : Freed state freed argument.value) :
    UpdatesEntry state (freed.setArgument argIndex kinds ⟨argSize, none⟩) argIndex argSize
      argValue kinds ⟨argSize, none⟩ where
  entry := ⟨argument, hentry⟩
  kernel := by
    rw [← hfreed.kernel]
    rfl
  size := rfl
  null := iff_of_true rfl hnull
  contents := fun _ heq => by cases heq
  own := fun _ heq => by cases heq
  others := fun _ _ hne hother _ hblock =>
    hseparate.freed_others hfreed (KernelObject.dynArguments_entry hentry) hne hother hblock

/-- The entry has a copy of the value afterwards. -/
theorem UpdatesEntry.of_copy
    {bytes : List UInt8} (hvalue : ¬ MeansNull kinds (some bytes))
    (hfreed : Freed state freed argument.value) :
    UpdatesEntry state (freed.storeCopy argIndex kinds argSize (bytes.take argSize.toNat))
      argIndex argSize (some bytes) kinds ⟨argSize, some state.nextBlock⟩ where
  entry := ⟨argument, hentry⟩
  kernel := by
    rw [← hfreed.kernel, ← hfreed.nextBlock]
    rfl
  size := rfl
  null := iff_of_false (by simp) hvalue
  contents := by
    intro block hblock
    cases hblock
    rw [← hfreed.nextBlock]
    exact Function.update_self _ _ _
  own := by
    intro block hblock other index hne hother hother_block
    cases hblock
    have hlt : argIndex < freed.kernel.args.length := by
      rw [hfreed.kernel]
      exact (List.getElem?_eq_some_iff.mp hentry).1
    have hset : (freed.storeCopy argIndex kinds argSize
        (bytes.take argSize.toNat)).kernel.dynArguments =
          freed.kernel.dynArguments.set argIndex ⟨argSize, some freed.nextBlock⟩ :=
      KernelObject.dynArguments_set hlt
    rw [hset, hfreed.kernel, List.getElem?_set_ne hne.symm] at hother
    exact lt_irrefl _ (hseparate.below _ _ hother _ hother_block)
  others := by
    intro other index hne hother block hblock
    have hold := hseparate.freed_others hfreed (KernelObject.dynArguments_entry hentry) hne
      hother hblock
    rw [← hold]
    refine Function.update_of_ne (fun heq => ?_) _ _
    have hlt := hseparate.below _ _ hother _ hblock
    rw [heq, hfreed.nextBlock] at hlt
    exact lt_irrefl _ hlt

end Outcomes

section Calls

variable (hargIndex : argIndex ≤ state.kernel.args.length)
  (harguments : state.kernel.hasArguments = true) (hseparate : Separate state)
  (hentry : state.kernel.args[argIndex]? = some (kinds, argument))
  (hpointer : ∀ bytes, argValue = some bytes → kinds.isPointer = true → 8 ≤ bytes.length)

include hargIndex harguments hseparate hentry hpointer

theorem wellBehaved_null_iff (hnull : StoresNull kinds argValue) :
    WellBehaved build memory state argIndex argSize argValue ↔
      Freeable state argument ∧ MeansNull kinds argValue ∧
        (retypes build state.kernel = true →
          kinds.isPointer = true ∧ kinds.isLocal = true) := by
  have hset : clSetKernelArg build memory state argIndex argSize argValue = _ :=
    clSetKernelArg_null hargIndex harguments hentry hpointer hnull
  have hlt := (List.getElem?_eq_some_iff.mp hentry).1
  rw [← clearedKinds_eq_iff]
  constructor
  · rintro ⟨code, after, hrun, houtcome⟩
    rw [hset] at hrun
    obtain ⟨freed, hfree, heq⟩ := Option.map_eq_some_iff.mp hrun
    obtain ⟨rfl, rfl⟩ := Prod.mk.inj heq
    obtain ⟨hfreed, hheap⟩ := State.free_eq_some hfree
    rcases houtcome with ⟨hne, -⟩ | ⟨-, -, kinds', argument', hupdates⟩
    · exact absurd rfl hne
    · obtain ⟨rfl, hnew⟩ := hupdates.old hentry
      rw [← hfreed.kernel] at hentry
      rw [State.setArgument_entry hentry, Option.some.injEq, Prod.mk.injEq] at hnew
      obtain ⟨hkinds, rfl⟩ := hnew
      exact ⟨fun block hblock => (hheap block hblock).1, hupdates.null.mp rfl, hkinds⟩
  · rintro ⟨hfreeable, hmeans, hkinds⟩
    obtain ⟨freed, hfree⟩ := State.free_isSome_iff.mpr hfreeable
    obtain ⟨hfreed, -⟩ := State.free_eq_some hfree
    rw [hfree, hkinds] at hset
    exact ⟨_, _, hset, .inr ⟨rfl, hlt, _, _, .of_null hseparate hentry hmeans hfreed⟩⟩

omit hseparate in
theorem wellBehaved_refused_iff
    (hvalue : ¬ StoresNull kinds argValue) (hrefused : allocates build memory argSize = false) :
    WellBehaved build memory state argIndex argSize argValue ↔ argument.value = none := by
  have hset := clSetKernelArg_refused hargIndex harguments hentry hpointer hvalue hrefused
  have hmember : argument ∈ state.kernel.dynArguments :=
    List.mem_of_getElem? (KernelObject.dynArguments_entry hentry)
  constructor
  · rintro ⟨code, after, hrun, houtcome⟩
    rw [hset] at hrun
    obtain ⟨freed, hfree, heq⟩ := Option.map_eq_some_iff.mp hrun
    obtain ⟨rfl, rfl⟩ := Prod.mk.inj heq
    rcases houtcome with ⟨-, hunchanged⟩ | ⟨hsuccess, -⟩
    · refine Option.eq_none_iff_forall_ne_some.mpr fun block hblock => ?_
      obtain ⟨hold, hnew⟩ := (State.free_eq_some hfree).2 block hblock
      rw [hunchanged.values argument hmember block hblock] at hnew
      exact hold hnew
    · cases hsuccess
  · intro hnone
    rw [hnone] at hset
    exact ⟨_, _, hset, .inl ⟨by decide, rfl, fun _ _ _ _ => rfl⟩⟩

theorem wellBehaved_stored_iff {bytes : List UInt8} (hargValue : argValue = some bytes)
    (hvalue : ¬ StoresNull kinds argValue) (hsize : argSize.toNat ≤ bytes.length)
    (hallocates : allocates build memory argSize = true) :
    WellBehaved build memory state argIndex argSize argValue ↔ Freeable state argument := by
  have hset := clSetKernelArg_stored hargIndex harguments hentry hpointer hargValue hvalue
    hsize hallocates
  have hlt := (List.getElem?_eq_some_iff.mp hentry).1
  constructor
  · rintro ⟨code, after, hrun, -⟩
    rw [hset] at hrun
    obtain ⟨freed, hfree, -⟩ := Option.map_eq_some_iff.mp hrun
    exact State.free_isSome_iff.mp ⟨freed, hfree⟩
  · intro hfreeable
    obtain ⟨freed, hfree⟩ := State.free_isSome_iff.mpr hfreeable
    obtain ⟨hfreed, -⟩ := State.free_eq_some hfree
    have hmeans : ¬ MeansNull kinds argValue := fun hmeans => hvalue hmeans.storesNull
    subst hargValue
    rw [hfree] at hset
    exact ⟨_, _, hset, .inr ⟨rfl, hlt, _, _, .of_copy hseparate hentry hmeans hfreed⟩⟩

end Calls

/-- The entry of an automatic local variable is cleared. -/
theorem clSetKernelArg_local
    {code : ClCode} {after : State} (hargIndex : argIndex ≤ state.kernel.args.length)
    (harguments : state.kernel.hasArguments = true)
    (hentry : state.kernel.args[argIndex]? = none)
    (hset : clSetKernelArg build memory state argIndex argSize argValue =
      some (code, after)) : code = .success := by
  unfold clSetKernelArg at hset
  rw [if_neg (not_lt.mpr hargIndex), if_neg (by simp [harguments]), hentry] at hset
  dsimp only at hset
  split at hset
  next =>
    split at hset
    next => cases hset
    next =>
      obtain ⟨freed, -, heq⟩ := Option.bind_eq_some_iff.mp hset
      exact (Prod.mk.inj (Option.some.inj heq)).1.symm
  next => cases hset

/-- The old copies are freed first, and the index of the first automatic local variable is
accepted. -/
theorem clSetKernelArg_wellBehaved_iff
    (hreachable : Reachable build state)
    (hreadable : ∀ bytes, argValue = some bytes → Readable state argIndex argSize bytes) :
    WellBehaved build memory state argIndex argSize argValue ↔
      UpdateSafe build memory state argIndex argSize argValue := by
  have hseparate := hreachable.separate
  by_cases hrange : state.kernel.args.length < argIndex
  · have hset : clSetKernelArg build memory state argIndex argSize argValue =
        some (.invalidArgIndex, state) := if_pos hrange
    exact iff_of_true ⟨_, _, hset, .inl ⟨by decide, rfl, fun _ _ _ _ => rfl⟩⟩ (.inl hrange)
  by_cases harguments : state.kernel.hasArguments = false
  · have hset : clSetKernelArg build memory state argIndex argSize argValue =
        some (.invalidKernel, state) := by
      unfold clSetKernelArg
      rw [if_neg hrange, if_pos harguments]
    exact iff_of_true ⟨_, _, hset, .inl ⟨by decide, rfl, fun _ _ _ _ => rfl⟩⟩
      (.inr (.inl harguments))
  have hargIndex := not_lt.mp hrange
  rw [UpdateSafe, or_iff_right hrange, or_iff_right harguments]
  rw [Bool.not_eq_false] at harguments
  cases hentry : state.kernel.args[argIndex]? with
  | none =>
      have hlength := List.getElem?_eq_none_iff.mp hentry
      refine iff_of_false (fun hwell => ?_) (by simp)
      obtain ⟨code, after, hset, ⟨hcode, -⟩ | ⟨-, hlt, -⟩⟩ := hwell
      · exact hcode (clSetKernelArg_local hargIndex harguments hentry hset)
      · omega
  | some entry =>
      obtain ⟨kinds, argument⟩ := entry
      have hpointer : ∀ bytes, argValue = some bytes → kinds.isPointer = true →
          8 ≤ bytes.length := fun bytes heq => (hreadable bytes heq).pointer _ _ hentry
      have hsafe : (∃ kinds' argument', some (kinds, argument) = some (kinds', argument') ∧
          EntrySafe build memory state argSize argValue kinds' argument') ↔
            EntrySafe build memory state argSize argValue kinds argument := by
        constructor
        · rintro ⟨_, _, heq, hsafe⟩
          cases heq
          exact hsafe
        · exact fun hsafe => ⟨_, _, rfl, hsafe⟩
      rw [hsafe]
      by_cases hnull : StoresNull kinds argValue
      · rw [wellBehaved_null_iff hargIndex harguments hseparate hentry hpointer hnull]
        constructor
        · rintro ⟨hfreeable, hnulls⟩
          exact ⟨hfreeable, fun _ => hnulls, fun hvalue => absurd hnull hvalue⟩
        · exact fun hentrySafe => ⟨hentrySafe.freeable, hentrySafe.null hnull⟩
      cases hallocates : allocates build memory argSize with
      | false =>
          rw [wellBehaved_refused_iff hargIndex harguments hentry hpointer hnull hallocates]
          constructor
          · intro hnone
            refine ⟨fun block hblock => ?_, fun h => absurd h hnull, fun _ => .inr hnone⟩
            rw [hnone] at hblock
            cases hblock
          · intro hentrySafe
            exact (hentrySafe.copy hnull).resolve_left (by simp [hallocates])
      | true =>
          obtain ⟨-, bytes, hargValue⟩ := storesValue_of_not_null hpointer hnull
          rw [wellBehaved_stored_iff hargIndex harguments hseparate hentry hpointer hargValue
            hnull (hreadable bytes hargValue).size hallocates]
          constructor
          · exact fun hfreeable => ⟨hfreeable, fun h => absurd h hnull, fun _ => .inl hallocates⟩
          · exact EntrySafe.freeable

end Updates

def hostBuild : Build where
  hsaRuntime := false
  maxExtendedAlignment := 128
  allocator := .malloc

def emptyMemory : HostMemory where
  alignedAlloc := fun _ _ => some 4096
  posixMemalign := fun _ _ => some 4096
  malloc := fun _ => some 4096

def bufferKinds : ArgKinds := ⟨true, false, false, false, false⟩

def copyKernel (value : Option ℕ) : KernelObject where
  args := [(bufferKinds, ⟨8, value⟩)]
  locals := [⟨16, none⟩]
  hasArguments := true
  hasSource := true

def handleBytes : List UInt8 := [16, 32, 0, 0, 1, 0, 0, 0]

/-- The buffer of a kernel is replaced. -/
theorem secondBuffer_wellBehaved :
    ∃ state, state.kernel = copyKernel (some 0) ∧
      WellBehaved hostBuild emptyMemory state 0 8 (some handleBytes) := by
  have hcreate : Reachable hostBuild ⟨{ copyKernel none with
      args := [(bufferKinds, ⟨0, none⟩)] }, fun _ => none, 0⟩ :=
    @Reachable.create hostBuild [bufferKinds] [16] true true _ rfl
  have hset := @Reachable.set hostBuild _ _ emptyMemory 0 8 (some handleBytes) _ hcreate rfl
  refine ⟨_, rfl, (clSetKernelArg_wellBehaved_iff hset fun bytes heq => ?_).mpr
    (.inr (.inr ⟨bufferKinds, ⟨8, some 0⟩, rfl, ?_⟩))⟩
  · cases heq
    exact ⟨by decide, fun _ _ _ _ => by decide⟩
  · refine ⟨fun block hblock => ?_, fun hnull => ?_, fun _ => .inl (by decide)⟩
    · cases hblock
      simp [State.storeCopy]
    · exact absurd (hnull handleBytes rfl) (by decide)

/-- The first automatic local variable of a kernel is set, and a handle whose low half is
zero is dropped. -/
theorem localEntry_notWellBehaved :
    Reachable hostBuild ⟨copyKernel none, fun _ => none, 0⟩ ∧
      ¬ WellBehaved hostBuild emptyMemory ⟨copyKernel none, fun _ => none, 0⟩ 1 8 none ∧
      ¬ WellBehaved hostBuild emptyMemory ⟨copyKernel none, fun _ => none, 0⟩ 0 8
        (some [0, 0, 0, 0, 1, 0, 0, 0]) := by
  have hcreate : Reachable hostBuild ⟨{ copyKernel none with
      args := [(bufferKinds, ⟨0, none⟩)] }, fun _ => none, 0⟩ :=
    @Reachable.create hostBuild [bufferKinds] [16] true true _ rfl
  refine ⟨@Reachable.set hostBuild _ _ emptyMemory 0 8 none _ hcreate rfl, ?_, ?_⟩
  · rintro ⟨code, after, hset, hwell⟩
    have hcode : code = .success := (Prod.mk.inj (Option.some.inj hset)).1.symm
    rcases hwell with ⟨hne, -⟩ | ⟨-, hlt, -⟩
    · exact hne hcode
    · exact absurd hlt (by decide)
  · rintro ⟨code, after, hset, hwell⟩
    obtain ⟨hcode, hafter⟩ := Prod.mk.inj (Option.some.inj hset)
    rcases hwell with ⟨hne, -⟩ | ⟨-, -, kinds, argument, hupdates⟩
    · exact hne hcode.symm
    · obtain ⟨old, hold⟩ := hupdates.entry
      cases hold
      have hnew := congrArg KernelObject.args hupdates.kernel
      rw [← hafter] at hnew
      cases hnew
      exact absurd ((hupdates.null.mp rfl) _ rfl) (by decide)

end Pocl.ArgumentStorage
