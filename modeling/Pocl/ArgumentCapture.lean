import Pocl.BufferInstances
import Mathlib.Data.List.Forall2

/-!
# Arguments captured at the enqueue

Two runs that differ only in calls of `clSetKernelArg` after the enqueue lead to
kernel objects that differ in their arguments and, if a null value makes an argument
of a program from a binary a local one, in the kinds of these.  The launch is the
same in both exactly if the driver reads nothing of that.
-/

namespace Pocl.KernelArguments

variable {hsaRuntime : Bool} {context : Context} {device : Device} {kernel later : Kernel}

/-- Calls of `clSetKernelArg` after the enqueue make no difference to the launch. -/
def CapturedAtEnqueue (hsaRuntime : Bool) (context : Context) (device : Device)
    (kernel : Kernel) : Prop :=
  ∀ calls₁ calls₂ kernel₁ kernel₂,
    setKernelArgs hsaRuntime kernel calls₁ = some kernel₁ →
    setKernelArgs hsaRuntime kernel calls₂ = some kernel₂ →
    run context device kernel₁ kernel.capture = run context device kernel₂ kernel.capture

section Later

/-- The kinds of an argument after some calls. -/
def MayRetype (retypes : Bool) (before after : ArgKinds) : Prop :=
  after = before ∨ retypes = true ∧ after = clearedKinds true before

/-- What calls of `clSetKernelArg` leave of a kernel object. -/
structure Later (hsaRuntime : Bool) (kernel later : Kernel) : Prop where
  name : later.name = kernel.name
  groupSegmentSize : later.groupSegmentSize = kernel.groupSegmentSize
  hasSource : later.hasSource = kernel.hasSource
  args : List.Forall₂
    (fun before after => MayRetype (kernel.retypes hsaRuntime) before.1 after.1)
    kernel.args later.args
  locals : kernel.retypes hsaRuntime = true → later.locals = kernel.locals
  noLocals : kernel.locals = [] → later.locals = []

theorem MayRetype.cleared {retypes : Bool} {before after : ArgKinds}
    (h : MayRetype retypes before after) :
    MayRetype retypes before (clearedKinds retypes after) := by
  cases retypes with
  | false => exact h
  | true =>
      right
      refine ⟨rfl, ?_⟩
      obtain rfl | ⟨_, rfl⟩ := h
      · rfl
      · rfl

theorem setArg_mayRetype {retypes : Bool} {before : ArgKinds}
    {arg result : ArgKinds × Argument} {size : ℕ} {value : Option (List UInt8)}
    (hbefore : MayRetype retypes before arg.1)
    (hset : setArg retypes arg size value = some result) :
    MayRetype retypes before result.1 := by
  unfold setArg at hset
  split at hset
  · split at hset
    · cases hset
    · cases hset
      exact hbefore
  · cases hset
    exact hbefore.cleared
  · cases hset

theorem forall₂_set {α β : Type} {r : α → β → Prop} {first : List α} {second : List β}
    (h : List.Forall₂ r first second) (index : ℕ) (value : β)
    (hvalue : ∀ before after, second[index]? = some after → r before after →
      r before value) :
    List.Forall₂ r first (second.set index value) := by
  induction h generalizing index with
  | nil => exact List.Forall₂.nil
  | @cons before after first second hr h ih =>
      cases index with
      | zero => exact List.Forall₂.cons (hvalue before after rfl hr) h
      | succ index => exact List.Forall₂.cons hr (ih index hvalue)

theorem Later.retypes (hlater : Later hsaRuntime kernel later) :
    later.retypes hsaRuntime = kernel.retypes hsaRuntime := by
  simp [Kernel.retypes, hlater.hasSource]

theorem Later.set {result : ClCode × Kernel} {index size : ℕ} {value : Option (List UInt8)}
    (hlater : Later hsaRuntime kernel later)
    (hset : clSetKernelArg hsaRuntime later index size value = some result) :
    Later hsaRuntime kernel result.2 := by
  unfold clSetKernelArg at hset
  rw [hlater.retypes] at hset
  split at hset
  · cases hset
    exact hlater
  · split at hset
    next arg _ _ hget =>
      obtain ⟨newArg, hnew, hset⟩ := Option.map_eq_some_iff.mp hset
      cases hset
      refine { hlater with args := ?_ }
      apply forall₂_set hlater.args
      intro before after hafter hr
      rw [hget, Option.some.injEq] at hafter
      rw [← hafter] at hr
      exact setArg_mayRetype hr hnew
    next hlocals =>
      split at hset
      · cases hset
      next hretypes =>
        cases hset
        refine { hlater with locals := ?_, noLocals := ?_ }
        · intro htrue
          exact absurd htrue hretypes
        · intro hnone
          rw [hlater.noLocals hnone] at hlocals
          cases hlocals
    · cases hset

theorem later_of_setKernelArgs (calls : List SetCall)
    (hlater : Later hsaRuntime kernel later) {result : Kernel}
    (hcalls : setKernelArgs hsaRuntime later calls = some result) :
    Later hsaRuntime kernel result := by
  induction calls generalizing later with
  | nil =>
      cases hcalls
      exact hlater
  | cons call calls ih =>
      unfold setKernelArgs at hcalls
      rw [List.foldlM_cons] at hcalls
      obtain ⟨next, hnext, hrest⟩ := Option.bind_eq_some_iff.mp hcalls
      obtain ⟨stepped, hstep, rfl⟩ := Option.map_eq_some_iff.mp hnext
      exact ih (hlater.set hstep) hrest

theorem Later.refl (hsaRuntime : Bool) (kernel : Kernel) : Later hsaRuntime kernel kernel where
  name := rfl
  groupSegmentSize := rfl
  hasSource := rfl
  args := List.forall₂_same.mpr (fun _ _ => Or.inl rfl)
  locals := fun _ => rfl
  noLocals := id

end Later

section Fixed

variable {first second : Kernel}

theorem zipWith_forall₂ {r : ArgKinds × Argument → ArgKinds × Argument → Prop}
    {s : LaunchArg → LaunchArg → Prop}
    (args first second : List (ArgKinds × Argument))
    (hfirst : List.Forall₂ r args first) (hsecond : List.Forall₂ r args second)
    (hs : ∀ arg ∈ args, ∀ arg₁ arg₂, r arg arg₁ → r arg arg₂ →
      s ⟨arg₁.1, arg₁.2, arg.2⟩ ⟨arg₂.1, arg₂.2, arg.2⟩) :
    List.Forall₂ s
      (List.zipWith (fun arg captured => ⟨arg.1, arg.2, captured⟩) first (args.map Prod.snd))
      (List.zipWith (fun arg captured => ⟨arg.1, arg.2, captured⟩) second
        (args.map Prod.snd)) := by
  induction hfirst generalizing second with
  | nil =>
      cases hsecond
      exact List.Forall₂.nil
  | @cons arg arg₁ args first h₁ _ ih =>
      cases hsecond with
      | @cons _ arg₂ _ second h₂ hsecond =>
          refine List.Forall₂.cons (hs arg List.mem_cons_self arg₁ arg₂ h₁ h₂) ?_
          apply ih second hsecond
          intro other hother
          exact hs other (List.mem_cons_of_mem _ hother)

theorem Later.forall₂_launchArgs {s : LaunchArg → LaunchArg → Prop}
    (hfirst : Later hsaRuntime kernel first) (hsecond : Later hsaRuntime kernel second)
    (hs : ∀ arg ∈ kernel.args, ∀ arg₁ arg₂ : ArgKinds × Argument,
      MayRetype (kernel.retypes hsaRuntime) arg.1 arg₁.1 →
      MayRetype (kernel.retypes hsaRuntime) arg.1 arg₂.1 →
      s ⟨arg₁.1, arg₁.2, arg.2⟩ ⟨arg₂.1, arg₂.2, arg.2⟩) :
    List.Forall₂ s (launchArgs first kernel.capture) (launchArgs second kernel.capture) :=
  zipWith_forall₂ kernel.args first.args second.args hfirst.args hsecond.args hs

theorem mapM_congr_forall₂ {pass : LaunchArg → Option Passed} {args₁ args₂ : List LaunchArg}
    (h : List.Forall₂ (fun arg₁ arg₂ => pass arg₁ = pass arg₂) args₁ args₂) :
    args₁.mapM pass = args₂.mapM pass := by
  induction h with
  | nil => rfl
  | cons heq _ ih => rw [List.mapM_cons, List.mapM_cons, heq, ih]

theorem MayRetype.eq_of_not {before after : ArgKinds}
    (h : MayRetype false before after) : after = before := by
  obtain heq | ⟨hfalse, _⟩ := h
  · exact heq
  · cases hfalse

theorem MayRetype.isLocal {retypes : Bool} {before after : ArgKinds}
    (h : MayRetype retypes before after) (hlocal : before.isLocal = true) :
    after.isLocal = true := by
  obtain rfl | ⟨_, rfl⟩ := h
  · exact hlocal
  · rfl

/-- A driver that reads of an argument only what has been captured, and its kinds. -/
structure ReadsCaptured (pass : LaunchArg → Option Passed) : Prop where
  local_eq : ∀ arg, arg.kinds.isLocal = true → pass arg = some (.localMemory arg.captured.size)
  local_of : ∀ arg size, pass arg = some (.localMemory size) → arg.kinds.isLocal = true
  congr : ∀ arg₁ arg₂, arg₁.kinds = arg₂.kinds → arg₁.captured = arg₂.captured →
    pass arg₁ = pass arg₂

theorem passBasic_readsCaptured (index : ℕ) : ReadsCaptured (passBasic index) where
  local_eq := by
    intro arg hlocal
    simp [passBasic, hlocal]
  local_of := by
    intro arg size hpass
    by_contra hlocal
    rw [passBasic, if_neg hlocal] at hpass
    split at hpass
    · cases hvalue : arg.captured.value <;> simp [hvalue, passBuffer] at hpass
    · split at hpass
      · cases hvalue : arg.captured.value <;> simp [hvalue] at hpass
      · split at hpass <;> cases hpass
  congr := by
    intro arg₁ arg₂ hkinds hcaptured
    simp [passBasic, hkinds, hcaptured]

theorem passTtasim_readsCaptured (index : ℕ) : ReadsCaptured (passTtasim index) where
  local_eq := by
    intro arg hlocal
    simp [passTtasim, hlocal]
  local_of := by
    intro arg size hpass
    by_contra hlocal
    rw [passTtasim, if_neg hlocal] at hpass
    split at hpass
    · cases hvalue : arg.captured.value <;> simp [hvalue, passBuffer] at hpass
    · unfold copyValue at hpass
      split at hpass
      · cases hpass
      · split at hpass <;> cases hpass
  congr := by
    intro arg₁ arg₂ hkinds hcaptured
    simp [passTtasim, hkinds, hcaptured]

theorem ReadsCaptured.mapM_eq {pass : LaunchArg → Option Passed} (hpass : ReadsCaptured pass)
    (hfirst : Later hsaRuntime kernel first) (hsecond : Later hsaRuntime kernel second)
    (hfixed : kernel.retypes hsaRuntime = false ∨ ∀ arg ∈ kernel.args, arg.1.isLocal = true) :
    (launchArgs first kernel.capture).mapM pass =
      (launchArgs second kernel.capture).mapM pass := by
  apply mapM_congr_forall₂
  apply hfirst.forall₂_launchArgs hsecond
  intro arg harg arg₁ arg₂ h₁ h₂
  obtain hfalse | hlocal := hfixed
  · rw [hfalse] at h₁ h₂
    apply hpass.congr
    · exact h₁.eq_of_not.trans h₂.eq_of_not.symm
    · rfl
  · rw [hpass.local_eq _ (h₁.isLocal (hlocal arg harg)),
      hpass.local_eq _ (h₂.isLocal (hlocal arg harg))]

/-- The HSA driver reads through a null pointer for an argument that is not local. -/
def hsaFails (kinds : ArgKinds) (captured : Argument) : Bool :=
  !kinds.isPointer &&
    (if kinds.isImage then captured.value.isNone
      else !kinds.isStruct && captured.value.isNone && captured.size != 0)

theorem passHsa_eq_none_iff {memIndex : ℕ} {arg : LaunchArg} :
    passHsa memIndex arg = none ↔ hsaFails arg.kinds arg.captured = true := by
  unfold passHsa hsaFails copyValue
  cases arg.kinds.isPointer <;> cases arg.kinds.isImage <;> cases arg.kinds.isStruct <;>
    cases arg.captured.value <;> simp

/-- The size of the local arguments in the kernel object. -/
def localSize (args : List LaunchArg) : ℕ :=
  ((args.filter (fun arg => arg.kinds.isLocal)).map (fun arg => arg.current.size)).sum

theorem localSize_cons {arg : LaunchArg} {args : List LaunchArg}
    (hlocal : arg.kinds.isLocal = true) :
    localSize (arg :: args) = arg.current.size + localSize args := by
  simp [localSize, hlocal]

theorem localSize_append (args₁ args₂ : List LaunchArg) :
    localSize (args₁ ++ args₂) = localSize args₁ + localSize args₂ := by
  simp [localSize]

theorem passHsaArgs_eq_none {memIndex : ℕ} (args : List LaunchArg) (pointer : ℕ)
    (hfails : ∃ arg ∈ args, arg.kinds.isLocal = false ∧
      hsaFails arg.kinds arg.captured = true) :
    passHsaArgs memIndex pointer args = none := by
  induction args generalizing pointer with
  | nil =>
      obtain ⟨_, harg, _⟩ := hfails
      cases harg
  | cons first args ih =>
      obtain ⟨arg, harg, hlocal, hfail⟩ := hfails
      unfold passHsaArgs
      obtain rfl | harg := List.mem_cons.mp harg
      · rw [if_neg (by simp [hlocal]), passHsa_eq_none_iff.mpr hfail]
        rfl
      · have hrest := fun pointer => ih pointer ⟨arg, harg, hlocal, hfail⟩
        split
        · rw [hrest]
          rfl
        · rw [hrest]
          cases passHsa memIndex first <;> rfl

theorem exists_passHsaArgs {memIndex : ℕ} (args : List LaunchArg) (pointer : ℕ)
    (hruns : ∀ arg ∈ args, arg.kinds.isLocal = false →
      hsaFails arg.kinds arg.captured = false) :
    ∃ passed, passHsaArgs memIndex pointer args = some (passed, localSize args) := by
  induction args generalizing pointer with
  | nil => exact ⟨[], rfl⟩
  | cons arg args ih =>
      have hrest := fun pointer =>
        ih pointer (fun other hother => hruns other (List.mem_cons_of_mem _ hother))
      unfold passHsaArgs
      by_cases hlocal : arg.kinds.isLocal = true
      · obtain ⟨passed, hpassed⟩ := hrest (pointer + arg.captured.size)
        rw [if_pos hlocal, hpassed]
        refine ⟨.localPointer pointer :: passed, ?_⟩
        simp [localSize, hlocal]
      · rw [Bool.not_eq_true] at hlocal
        obtain ⟨passed, hpassed⟩ := hrest pointer
        have hnotNone : passHsa memIndex arg ≠ none := by
          intro hnone
          rw [passHsa_eq_none_iff, hruns arg List.mem_cons_self hlocal] at hnone
          cases hnone
        obtain ⟨first, hfirst⟩ := Option.ne_none_iff_exists'.mp hnotNone
        rw [if_neg (by simp [hlocal]), hfirst, hpassed]
        refine ⟨first :: passed, ?_⟩
        simp [localSize, hlocal]

/-- Without local arguments nothing but what has been captured is read. -/
theorem passHsaArgs_congr {memIndex : ℕ} (args₁ args₂ : List LaunchArg) (pointer : ℕ)
    (h : List.Forall₂ (fun arg₁ arg₂ => arg₁.kinds = arg₂.kinds ∧
      arg₁.captured = arg₂.captured ∧ arg₁.kinds.isLocal = false) args₁ args₂) :
    passHsaArgs memIndex pointer args₁ = passHsaArgs memIndex pointer args₂ := by
  induction h with
  | nil => rfl
  | @cons arg₁ arg₂ args₁ args₂ harg _ ih =>
      obtain ⟨hkinds, hcaptured, hlocal⟩ := harg
      have hlocal₂ : arg₂.kinds.isLocal = false := by rwa [← hkinds]
      have hpass : passHsa memIndex arg₁ = passHsa memIndex arg₂ := by
        simp [passHsa, hkinds, hcaptured]
      unfold passHsaArgs
      rw [if_neg (by simp [hlocal]), if_neg (by simp [hlocal₂]), hpass, ih]

theorem exists_of_forall₂ {α β : Type} {r : α → β → Prop} {list₁ : List α} {list₂ : List β}
    (h : List.Forall₂ r list₁ list₂) {x : α} (hx : x ∈ list₁) :
    ∃ y ∈ list₂, r x y := by
  induction h with
  | nil => cases hx
  | @cons _ y _ _ hr _ ih =>
      obtain rfl | hx := List.mem_cons.mp hx
      · exact ⟨y, List.mem_cons_self, hr⟩
      · obtain ⟨z, hz, hr⟩ := ih hx
        exact ⟨z, List.mem_cons_of_mem _ hz, hr⟩

/-- An argument at the enqueue. -/
def enqueuedArg (arg : ArgKinds × Argument) : LaunchArg :=
  ⟨arg.1, arg.2, arg.2⟩

theorem launchArgs_capture (kernel : Kernel) :
    launchArgs kernel kernel.capture = kernel.args.map enqueuedArg := by
  unfold launchArgs Kernel.capture
  rw [List.zipWith_map_right, List.zipWith_self]
  rfl

/-- The launch finds the kinds and the captured value of each argument. -/
theorem Later.exists_launchArg (hlater : Later hsaRuntime kernel later)
    (hretypes : kernel.retypes hsaRuntime = false) {arg : ArgKinds × Argument}
    (harg : arg ∈ kernel.args) :
    ∃ launchArg ∈ launchArgs later kernel.capture,
      launchArg.kinds = arg.1 ∧ launchArg.captured = arg.2 := by
  have hpairs : List.Forall₂
      (fun before after : LaunchArg =>
        after.kinds = before.kinds ∧ after.captured = before.captured)
      (launchArgs kernel kernel.capture) (launchArgs later kernel.capture) := by
    apply (Later.refl hsaRuntime kernel).forall₂_launchArgs hlater
    intro other _ arg₁ arg₂ h₁ h₂
    rw [hretypes] at h₁ h₂
    exact ⟨h₂.eq_of_not.trans h₁.eq_of_not.symm, rfl⟩
  have hmem : enqueuedArg arg ∈ launchArgs kernel kernel.capture := by
    rw [launchArgs_capture]
    exact List.mem_map_of_mem harg
  exact exists_of_forall₂ hpairs hmem

/-- The cellspu driver aborts for an argument that is neither local nor a pointer. -/
def cellspuAborts (kinds : ArgKinds) : Bool :=
  !kinds.isLocal && !kinds.isPointer && (kinds.isImage || kinds.isSampler)

theorem passCellspu_eq_none_iff {arg : LaunchArg} :
    passCellspu arg = none ↔ cellspuAborts arg.kinds = true := by
  unfold passCellspu cellspuAborts
  cases arg.kinds.isLocal <;> cases arg.kinds.isPointer <;> cases arg.kinds.isImage <;>
    cases arg.kinds.isSampler <;> simp

theorem mapM_eq_none {pass : LaunchArg → Option Passed} (args : List LaunchArg)
    (hnone : ∃ arg ∈ args, pass arg = none) :
    args.mapM pass = none := by
  induction args with
  | nil =>
      obtain ⟨_, harg, _⟩ := hnone
      cases harg
  | cons first args ih =>
      obtain ⟨arg, harg, hpass⟩ := hnone
      rw [List.mapM_cons]
      obtain rfl | harg := List.mem_cons.mp harg
      · rw [hpass]
        rfl
      · rw [ih ⟨arg, harg, hpass⟩]
        cases pass first <;> rfl

theorem Later.args_nil (hlater : Later hsaRuntime kernel later) (hnil : kernel.args = []) :
    later.args = [] := by
  have hargs := hlater.args
  rw [hnil] at hargs
  exact List.forall₂_nil_left_iff.mp hargs

/-- The driver reads nothing of a kernel object that a call of `clSetKernelArg` can
change, or fails whatever is changed. -/
def ReadsOnlyCaptured (hsaRuntime : Bool) (device : Device) (kernel : Kernel) : Prop :=
  match device.driver with
  | .basic | .pthread | .ttasim =>
      kernel.retypes hsaRuntime = false ∨ ∀ arg ∈ kernel.args, arg.1.isLocal = true
  | .cellspu =>
      (kernel.args = [] ∧ (kernel.locals = [] ∨ kernel.retypes hsaRuntime = true)) ∨
        kernel.retypes hsaRuntime = false ∧ ∃ arg ∈ kernel.args, cellspuAborts arg.1 = true
  | .hsa =>
      kernel.args = [] ∨
        kernel.name ≠ "calPriceVega" ∧ kernel.retypes hsaRuntime = false ∧
          ((∀ arg ∈ kernel.args, arg.1.isLocal = false) ∨
            ∃ arg ∈ kernel.args, arg.1.isLocal = false ∧ hsaFails arg.1 arg.2 = true)

theorem Later.basicRun_eq {index : ℕ}
    (hfirst : Later hsaRuntime kernel first) (hsecond : Later hsaRuntime kernel second)
    (hfixed : kernel.retypes hsaRuntime = false ∨ ∀ arg ∈ kernel.args, arg.1.isLocal = true) :
    basicRun index first kernel.capture = basicRun index second kernel.capture := by
  unfold basicRun
  rw [(passBasic_readsCaptured index).mapM_eq hfirst hsecond hfixed]

theorem Later.ttasimRun_eq {index : ℕ}
    (hfirst : Later hsaRuntime kernel first) (hsecond : Later hsaRuntime kernel second)
    (hfixed : kernel.retypes hsaRuntime = false ∨ ∀ arg ∈ kernel.args, arg.1.isLocal = true) :
    ttasimRun index first kernel.capture = ttasimRun index second kernel.capture := by
  unfold ttasimRun
  rw [(passTtasim_readsCaptured index).mapM_eq hfirst hsecond hfixed]

theorem Later.cellspuRun_nil (hlater : Later hsaRuntime kernel later)
    (hnil : kernel.args = [])
    (hlocals : kernel.locals = [] ∨ kernel.retypes hsaRuntime = true) :
    cellspuRun later kernel.capture = cellspuRun kernel kernel.capture := by
  have hlocals' : later.locals = kernel.locals := by
    obtain hnone | hretypes := hlocals
    · rw [hlater.noLocals hnone, hnone]
    · exact hlater.locals hretypes
  unfold cellspuRun launchArgs
  rw [hlater.args_nil hnil, hnil, hlocals']

theorem Later.cellspuRun_aborts (hlater : Later hsaRuntime kernel later)
    (hretypes : kernel.retypes hsaRuntime = false) {arg : ArgKinds × Argument}
    (harg : arg ∈ kernel.args) (haborts : cellspuAborts arg.1 = true) :
    cellspuRun later kernel.capture = none := by
  obtain ⟨launchArg, hmem, hkinds, _⟩ := hlater.exists_launchArg hretypes harg
  have hnone : passCellspu launchArg = none := by
    rw [passCellspu_eq_none_iff, hkinds]
    exact haborts
  unfold cellspuRun
  rw [mapM_eq_none _ ⟨launchArg, hmem, hnone⟩]
  rfl

theorem Later.hsaRun_nil {memIndex : ℕ} (hlater : Later hsaRuntime kernel later)
    (hnil : kernel.args = []) :
    hsaRun memIndex later kernel.capture = hsaRun memIndex kernel kernel.capture := by
  unfold hsaRun hsaPassed launchArgs
  rw [hlater.args_nil hnil, hnil, hlater.name, hlater.groupSegmentSize]

theorem Later.hsaRun_eq {memIndex : ℕ}
    (hfirst : Later hsaRuntime kernel first) (hsecond : Later hsaRuntime kernel second)
    (hname : kernel.name ≠ "calPriceVega") (hretypes : kernel.retypes hsaRuntime = false)
    (hlocal : ∀ arg ∈ kernel.args, arg.1.isLocal = false) :
    hsaRun memIndex first kernel.capture = hsaRun memIndex second kernel.capture := by
  have hargs : passHsaArgs memIndex kernel.groupSegmentSize
        (launchArgs first kernel.capture) =
      passHsaArgs memIndex kernel.groupSegmentSize
        (launchArgs second kernel.capture) := by
    apply passHsaArgs_congr
    apply hfirst.forall₂_launchArgs hsecond
    intro arg harg arg₁ arg₂ h₁ h₂
    rw [hretypes] at h₁ h₂
    refine ⟨h₁.eq_of_not.trans h₂.eq_of_not.symm, rfl, ?_⟩
    rw [h₁.eq_of_not]
    exact hlocal arg harg
  unfold hsaRun hsaPassed
  rw [hfirst.name, hsecond.name, if_neg hname, if_neg hname, hfirst.groupSegmentSize,
    hsecond.groupSegmentSize, hargs]

theorem Later.hsaRun_fails {memIndex : ℕ} (hlater : Later hsaRuntime kernel later)
    (hname : kernel.name ≠ "calPriceVega") (hretypes : kernel.retypes hsaRuntime = false)
    {arg : ArgKinds × Argument} (harg : arg ∈ kernel.args)
    (hlocal : arg.1.isLocal = false) (hfails : hsaFails arg.1 arg.2 = true) :
    hsaRun memIndex later kernel.capture = none := by
  obtain ⟨launchArg, hmem, hkinds, hcaptured⟩ := hlater.exists_launchArg hretypes harg
  unfold hsaRun hsaPassed
  rw [hlater.name, if_neg hname, passHsaArgs_eq_none]
  · rfl
  · exact ⟨launchArg, hmem, by rw [hkinds]; exact hlocal,
      by rw [hkinds, hcaptured]; exact hfails⟩

theorem capturedAtEnqueue_of_readsOnlyCaptured
    (hreads : ReadsOnlyCaptured hsaRuntime device kernel) :
    CapturedAtEnqueue hsaRuntime context device kernel := by
  intro calls₁ calls₂ first second hcalls₁ hcalls₂
  have hfirst := later_of_setKernelArgs calls₁ (Later.refl hsaRuntime kernel) hcalls₁
  have hsecond := later_of_setKernelArgs calls₂ (Later.refl hsaRuntime kernel) hcalls₂
  unfold ReadsOnlyCaptured at hreads
  unfold run
  cases hdriver : device.driver with
  | basic =>
      rw [hdriver] at hreads
      simp only [hfirst.basicRun_eq hsecond hreads]
  | pthread =>
      rw [hdriver] at hreads
      simp only [hfirst.basicRun_eq hsecond hreads]
  | ttasim =>
      rw [hdriver] at hreads
      exact hfirst.ttasimRun_eq hsecond hreads
  | cellspu =>
      rw [hdriver] at hreads
      obtain ⟨hnil, hlocals⟩ | ⟨hretypes, arg, harg, haborts⟩ := hreads
      · exact (hfirst.cellspuRun_nil hnil hlocals).trans
          (hsecond.cellspuRun_nil hnil hlocals).symm
      · exact (hfirst.cellspuRun_aborts hretypes harg haborts).trans
          (hsecond.cellspuRun_aborts hretypes harg haborts).symm
  | hsa =>
      rw [hdriver] at hreads
      obtain hnil | ⟨hname, hretypes, hlocal | ⟨arg, harg, hlocal, hfails⟩⟩ := hreads
      · simp only [hfirst.hsaRun_nil hnil, hsecond.hsaRun_nil hnil]
      · simp only [hfirst.hsaRun_eq hsecond hname hretypes hlocal]
      · simp only [hfirst.hsaRun_fails hname hretypes harg hlocal hfails,
          hsecond.hsaRun_fails hname hretypes harg hlocal hfails]

end Fixed

end Pocl.KernelArguments
