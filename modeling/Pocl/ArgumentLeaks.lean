import Pocl.ArgumentCapture

/-!
# Launches that read later arguments

After the enqueue all arguments can be set to null, and the first one to another
value then.  If the driver reads the kernel object for one of the arguments, the
launches of two such runs differ.
-/

namespace Pocl.KernelArguments

variable {hsaRuntime : Bool} {context : Context} {device : Device} {kernel later : Kernel}

section Clearing

theorem clSetKernelArg_append (hsaRuntime : Bool) (front : List (ArgKinds × Argument))
    {rest : List (ArgKinds × Argument)} {arg : ArgKinds × Argument} (size : ℕ)
    (value : Option (List UInt8))
    (hargs : kernel.args = front ++ arg :: rest) :
    clSetKernelArg hsaRuntime kernel front.length size value =
      (setArg (kernel.retypes hsaRuntime) arg size value).map
        (fun arg => (.success, { kernel with args := front ++ arg :: rest })) := by
  have hget : kernel.args[front.length]? = some arg := by
    rw [hargs]
    simp
  have hset : ∀ new, kernel.args.set front.length new = front ++ new :: rest := by
    intro new
    rw [hargs]
    simp
  have hindex : ¬ kernel.args.length < front.length := by
    rw [hargs]
    simp
  unfold clSetKernelArg
  simp only [if_neg hindex, hget, hset]

/-- The calls that set the arguments from an index on to null. -/
def clearCalls (start n : ℕ) : List SetCall :=
  (List.range' start n).map (fun index => ⟨index, 0, none⟩)

def clearArg (retypes : Bool) (arg : ArgKinds × Argument) : ArgKinds × Argument :=
  (clearedKinds retypes arg.1, ⟨0, none⟩)

theorem setKernelArgs_clear
    (hsaRuntime : Bool) (rest front : List (ArgKinds × Argument)) (kernel : Kernel)
    (hargs : kernel.args = front ++ rest) :
    setKernelArgs hsaRuntime kernel (clearCalls front.length rest.length) =
      some { kernel with
        args := front ++ rest.map (clearArg (kernel.retypes hsaRuntime)) } := by
  induction rest generalizing front kernel with
  | nil =>
      cases kernel
      simp only at hargs
      subst hargs
      simp [setKernelArgs, clearCalls]
  | cons arg rest ih =>
      have hstep := clSetKernelArg_append hsaRuntime front 0 none hargs
      have hrest := ih (front ++ [clearArg (kernel.retypes hsaRuntime) arg])
        { kernel with args := front ++ clearArg (kernel.retypes hsaRuntime) arg :: rest }
        (by simp)
      rw [List.length_append, List.length_singleton] at hrest
      unfold setKernelArgs clearCalls at hrest ⊢
      rw [List.length_cons, List.range'_succ, List.map_cons, List.foldlM_cons]
      simp only [hstep, setArg, storesValue, Option.map_some]
      change List.foldlM _ _ _ = _
      rw [show (clearedKinds (kernel.retypes hsaRuntime) arg.1, (⟨0, none⟩ : Argument)) =
        clearArg (kernel.retypes hsaRuntime) arg from rfl, hrest]
      simp [Kernel.retypes]

theorem setKernelArgs_append {middle : Kernel} (calls₁ calls₂ : List SetCall)
    (hcalls : setKernelArgs hsaRuntime kernel calls₁ = some middle) :
    setKernelArgs hsaRuntime kernel (calls₁ ++ calls₂) =
      setKernelArgs hsaRuntime middle calls₂ := by
  unfold setKernelArgs at hcalls ⊢
  rw [List.foldlM_append, hcalls]
  rfl

/-- All arguments are null, except for the first one. -/
def clearedBut (retypes : Bool) (kernel : Kernel) (first : ArgKinds × Argument)
    (rest : List (ArgKinds × Argument)) (value : Argument) : Kernel :=
  { kernel with
    args := (clearedKinds retypes first.1, value) :: rest.map (clearArg retypes) }

@[simp] theorem clearedBut_name (retypes : Bool) (kernel : Kernel)
    (first : ArgKinds × Argument) (rest : List (ArgKinds × Argument)) (value : Argument) :
    (clearedBut retypes kernel first rest value).name = kernel.name := rfl

@[simp] theorem clearedBut_groupSegmentSize (retypes : Bool) (kernel : Kernel)
    (first : ArgKinds × Argument) (rest : List (ArgKinds × Argument)) (value : Argument) :
    (clearedBut retypes kernel first rest value).groupSegmentSize =
      kernel.groupSegmentSize := rfl

theorem setArg_nonzero (retypes : Bool) (arg : ArgKinds × Argument) :
    setArg retypes arg 4 (some [1, 0, 0, 0]) = some (arg.1, ⟨4, some [1, 0, 0, 0]⟩) := by
  have hstores : storesValue arg.1 (some [1, 0, 0, 0]) = some true := by
    unfold storesValue
    cases arg.1.isPointer <;> decide
  simp [setArg, hstores]

/-- The launches after the two runs. -/
theorem CapturedAtEnqueue.clearedBut_eq
    (hcaptured : CapturedAtEnqueue hsaRuntime context device kernel)
    {first : ArgKinds × Argument} {rest : List (ArgKinds × Argument)}
    (hargs : kernel.args = first :: rest) :
    run context device (clearedBut (kernel.retypes hsaRuntime) kernel first rest ⟨0, none⟩)
        kernel.capture =
      run context device
        (clearedBut (kernel.retypes hsaRuntime) kernel first rest ⟨4, some [1, 0, 0, 0]⟩)
        kernel.capture := by
  have hclear : setKernelArgs hsaRuntime kernel (clearCalls 0 kernel.args.length) =
      some (clearedBut (kernel.retypes hsaRuntime) kernel first rest ⟨0, none⟩) := by
    have hall := setKernelArgs_clear hsaRuntime kernel.args [] kernel rfl
    rw [hargs] at hall ⊢
    exact hall
  have hset : setKernelArgs hsaRuntime kernel
        (clearCalls 0 kernel.args.length ++ [⟨0, 4, some [1, 0, 0, 0]⟩]) =
      some (clearedBut (kernel.retypes hsaRuntime) kernel first rest
        ⟨4, some [1, 0, 0, 0]⟩) := by
    rw [setKernelArgs_append _ _ hclear]
    have hstep := clSetKernelArg_append hsaRuntime [] 4 (some [1, 0, 0, 0])
      (show (clearedBut (kernel.retypes hsaRuntime) kernel first rest ⟨0, none⟩).args =
        [] ++ _ :: _ from rfl)
    rw [setArg_nonzero] at hstep
    simp only [setKernelArgs, List.foldlM_cons, List.foldlM_nil]
    rw [List.length_nil] at hstep
    rw [hstep]
    rfl
  exact hcaptured _ _ _ _ hclear hset

theorem launchArgs_clearedBut {first : ArgKinds × Argument}
    {rest : List (ArgKinds × Argument)} (hargs : kernel.args = first :: rest)
    (retypes : Bool) (value : Argument) :
    launchArgs (clearedBut retypes kernel first rest value) kernel.capture =
      ⟨clearedKinds retypes first.1, value, first.2⟩ ::
        rest.map (fun arg => ⟨clearedKinds retypes arg.1, ⟨0, none⟩, arg.2⟩) := by
  unfold launchArgs Kernel.capture clearedBut
  rw [hargs]
  simp only [List.map_cons, List.zipWith_cons_cons, List.cons.injEq, true_and]
  rw [List.zipWith_map, List.zipWith_self]
  rfl

theorem clearedKinds_true_isLocal (kinds : ArgKinds) :
    (clearedKinds true kinds).isLocal = true := rfl

end Clearing

section Drivers

variable {first : ArgKinds × Argument} {rest : List (ArgKinds × Argument)}

theorem exists_passVegaArgs {memIndex : ℕ} (args : List LaunchArg) (pointer : ℕ)
    (hcleared : ∀ arg ∈ args, arg.current = ⟨0, none⟩) :
    ∃ passed, passVegaArgs memIndex pointer args = some passed := by
  induction args generalizing pointer with
  | nil => exact ⟨_, rfl⟩
  | cons arg args ih =>
      have hrest := fun pointer =>
        ih pointer (fun other hother => hcleared other (List.mem_cons_of_mem _ hother))
      have hcurrent := hcleared arg List.mem_cons_self
      unfold passVegaArgs
      split
      · obtain ⟨passed, hpassed⟩ := hrest (pointer + 8)
        simp only [hcurrent, hpassed]
        exact ⟨_, rfl⟩
      · obtain ⟨passed, hpassed⟩ := hrest pointer
        have hvalue : ∃ value, passVegaValue arg = some value := by
          unfold passVegaValue copyValue
          rw [hcurrent]
          split
          · exact ⟨_, rfl⟩
          · exact ⟨_, rfl⟩
        obtain ⟨value, hvalue⟩ := hvalue
        rw [hvalue, hpassed]
        exact ⟨_, rfl⟩

theorem hsaRun_of_hsaPassed {memIndex size : ℕ} {captured : Captured} {passed : List Passed}
    (hpassed : hsaPassed memIndex kernel captured = some (passed, size)) :
    hsaRun memIndex kernel captured =
      some ⟨passed, (kernel.groupSegmentSize + size) % 2 ^ 32⟩ := by
  unfold hsaRun
  rw [hpassed]
  rfl

theorem hsaRun_vega_ne {memIndex : ℕ} (hargs : kernel.args = first :: rest)
    (hname : kernel.name = "calPriceVega") (retypes : Bool) :
    hsaRun memIndex (clearedBut retypes kernel first rest ⟨0, none⟩) kernel.capture ≠
      hsaRun memIndex (clearedBut retypes kernel first rest ⟨4, some [1, 0, 0, 0]⟩)
        kernel.capture := by
  obtain ⟨passed, hpassed⟩ : ∃ passed, passVegaArgs memIndex kernel.groupSegmentSize
      (rest.map (fun arg => ⟨clearedKinds retypes arg.1, ⟨0, none⟩, arg.2⟩)) =
        some passed := by
    apply exists_passVegaArgs
    intro arg harg
    obtain ⟨other, _, rfl⟩ := List.mem_map.mp harg
    rfl
  have hvega : ∀ value, hsaPassed memIndex (clearedBut retypes kernel first rest value)
      kernel.capture = some (.pointer value.value :: passed.1, passed.2) := by
    intro value
    unfold hsaPassed
    rw [clearedBut_name, if_pos hname, launchArgs_clearedBut hargs,
      clearedBut_groupSegmentSize, passVega, hpassed]
    rfl
  rw [hsaRun_of_hsaPassed (hvega _), hsaRun_of_hsaPassed (hvega _)]
  simp

theorem hsaRun_retyped_ne {memIndex : ℕ} (hargs : kernel.args = first :: rest)
    (hname : kernel.name ≠ "calPriceVega") :
    hsaRun memIndex (clearedBut true kernel first rest ⟨0, none⟩) kernel.capture ≠
      hsaRun memIndex (clearedBut true kernel first rest ⟨4, some [1, 0, 0, 0]⟩)
        kernel.capture := by
  have hpassed : ∀ value : Argument, ∃ passed,
      hsaPassed memIndex (clearedBut true kernel first rest value) kernel.capture =
        some (passed, value.size + localSize
          (rest.map (fun arg => ⟨clearedKinds true arg.1, ⟨0, none⟩, arg.2⟩))) := by
    intro value
    unfold hsaPassed
    rw [clearedBut_name, if_neg hname, launchArgs_clearedBut hargs]
    have hsize : value.size + localSize
          (rest.map (fun arg => ⟨clearedKinds true arg.1, ⟨0, none⟩, arg.2⟩)) =
        localSize (⟨clearedKinds true first.1, value, first.2⟩ ::
          rest.map (fun arg => ⟨clearedKinds true arg.1, ⟨0, none⟩, arg.2⟩)) := by
      rw [localSize_cons (clearedKinds_true_isLocal first.1)]
    rw [hsize]
    apply exists_passHsaArgs
    intro arg harg hlocal
    obtain rfl | harg := List.mem_cons.mp harg
    · cases hlocal
    · obtain ⟨other, _, rfl⟩ := List.mem_map.mp harg
      cases hlocal
  obtain ⟨passed₁, hpassed₁⟩ := hpassed ⟨0, none⟩
  obtain ⟨passed₂, hpassed₂⟩ := hpassed ⟨4, some [1, 0, 0, 0]⟩
  rw [hsaRun_of_hsaPassed hpassed₁, hsaRun_of_hsaPassed hpassed₂]
  simp only [clearedBut_groupSegmentSize, ne_eq, Option.some.injEq, Launch.mk.injEq, not_and]
  intro _
  omega

theorem launchArgs_replaced {front : List (ArgKinds × Argument)}
    {arg : ArgKinds × Argument} (hargs : kernel.args = front ++ arg :: rest)
    (value : Argument) :
    launchArgs { kernel with args := front ++ (arg.1, value) :: rest } kernel.capture =
      front.map enqueuedArg ++ ⟨arg.1, value, arg.2⟩ :: rest.map enqueuedArg := by
  unfold launchArgs Kernel.capture
  rw [hargs]
  simp only [List.map_append, List.map_cons]
  rw [List.zipWith_append (by simp), List.zipWith_cons_cons, List.zipWith_map_right,
    List.zipWith_map_right, List.zipWith_self, List.zipWith_self]
  rfl

/-- The size of a local argument is read when the command runs. -/
theorem exists_hsaRun_local {memIndex : ℕ} {front : List (ArgKinds × Argument)}
    {arg : ArgKinds × Argument} (hargs : kernel.args = front ++ arg :: rest)
    (hname : kernel.name ≠ "calPriceVega") (hlocal : arg.1.isLocal = true)
    (hruns : ∀ arg ∈ kernel.args, arg.1.isLocal = false → hsaFails arg.1 arg.2 = false)
    (value : Argument) :
    ∃ passed, hsaRun memIndex
        { kernel with args := front ++ (arg.1, value) :: rest } kernel.capture =
      some ⟨passed, (kernel.groupSegmentSize + (localSize (front.map enqueuedArg) +
        (value.size + localSize (rest.map enqueuedArg)))) % 2 ^ 32⟩ := by
  have hpassed : ∃ passed, hsaPassed memIndex
        { kernel with args := front ++ (arg.1, value) :: rest } kernel.capture =
      some (passed, localSize (front.map enqueuedArg) +
        (value.size + localSize (rest.map enqueuedArg))) := by
    have hsize : localSize (front.map enqueuedArg) +
          (value.size + localSize (rest.map enqueuedArg)) =
        localSize (front.map enqueuedArg ++ ⟨arg.1, value, arg.2⟩ :: rest.map enqueuedArg) := by
      rw [localSize_append, localSize_cons hlocal]
    unfold hsaPassed
    rw [if_neg hname, launchArgs_replaced hargs, hsize]
    apply exists_passHsaArgs
    intro other hother hnot
    obtain hother | hother := List.mem_append.mp hother
    · obtain ⟨enqueued, hmem, rfl⟩ := List.mem_map.mp hother
      exact hruns enqueued (by rw [hargs]; simp [hmem]) hnot
    · obtain rfl | hother := List.mem_cons.mp hother
      · rw [hlocal] at hnot
        cases hnot
      · obtain ⟨enqueued, hmem, rfl⟩ := List.mem_map.mp hother
        exact hruns enqueued (by rw [hargs]; simp [hmem]) hnot
  obtain ⟨passed, hpassed⟩ := hpassed
  exact ⟨passed, hsaRun_of_hsaPassed hpassed⟩

theorem passCellspu_ne {kinds : ArgKinds} (captured : Argument)
    (hruns : cellspuAborts kinds = false) :
    passCellspu ⟨kinds, ⟨0, none⟩, captured⟩ ≠
      passCellspu ⟨kinds, ⟨4, some [1, 0, 0, 0]⟩, captured⟩ := by
  unfold cellspuAborts at hruns
  unfold passCellspu
  cases hlocal : kinds.isLocal <;> cases hpointer : kinds.isPointer <;>
    cases himage : kinds.isImage <;> cases hsampler : kinds.isSampler <;>
    simp_all [passBuffer]

theorem exists_mapM {pass : LaunchArg → Option Passed} (args : List LaunchArg)
    (hruns : ∀ arg ∈ args, pass arg ≠ none) :
    ∃ passed, args.mapM pass = some passed := by
  induction args with
  | nil => exact ⟨[], rfl⟩
  | cons arg args ih =>
      obtain ⟨first, hfirst⟩ := Option.ne_none_iff_exists'.mp (hruns arg List.mem_cons_self)
      obtain ⟨rest, hrest⟩ := ih (fun other hother => hruns other (List.mem_cons_of_mem _ hother))
      refine ⟨first :: rest, ?_⟩
      rw [List.mapM_cons, hfirst, hrest]
      rfl

theorem cellspuRun_ne (hargs : kernel.args = first :: rest) (retypes : Bool)
    (hruns : ∀ arg ∈ kernel.args, cellspuAborts (clearedKinds retypes arg.1) = false) :
    cellspuRun (clearedBut retypes kernel first rest ⟨0, none⟩) kernel.capture ≠
      cellspuRun (clearedBut retypes kernel first rest ⟨4, some [1, 0, 0, 0]⟩)
        kernel.capture := by
  have hfirst := hruns first (by rw [hargs]; exact List.mem_cons_self)
  obtain ⟨passed, hpassed⟩ : ∃ passed,
      (rest.map (fun arg => ⟨clearedKinds retypes arg.1, ⟨0, none⟩, arg.2⟩)).mapM
        passCellspu = some passed := by
    apply exists_mapM
    intro arg harg hnone
    obtain ⟨other, hother, rfl⟩ := List.mem_map.mp harg
    rw [passCellspu_eq_none_iff, hruns other (by rw [hargs]; simp [hother])] at hnone
    cases hnone
  have hsome : ∀ value : Argument, ∃ item,
      passCellspu ⟨clearedKinds retypes first.1, value, first.2⟩ = some item := by
    intro value
    apply Option.ne_none_iff_exists'.mp
    intro hnone
    rw [passCellspu_eq_none_iff, hfirst] at hnone
    cases hnone
  obtain ⟨item₁, hitem₁⟩ := hsome ⟨0, none⟩
  obtain ⟨item₂, hitem₂⟩ := hsome ⟨4, some [1, 0, 0, 0]⟩
  have hne := passCellspu_ne first.2 hfirst
  rw [hitem₁, hitem₂] at hne
  unfold cellspuRun
  rw [launchArgs_clearedBut hargs, launchArgs_clearedBut hargs, List.mapM_cons,
    List.mapM_cons, hitem₁, hitem₂, hpassed]
  intro heq
  apply hne
  simp only [Option.bind_eq_bind, Option.bind_some, Option.pure_def, Option.some.injEq,
    Launch.mk.injEq, List.cons_append, List.cons.injEq] at heq
  rw [heq.1.1]

theorem exists_passed_of_mem {pass : LaunchArg → Option Passed} {arg : LaunchArg}
    (args : List LaunchArg) (result : List Passed)
    (hresult : args.mapM pass = some result) (harg : arg ∈ args) :
    ∃ passed ∈ result, pass arg = some passed := by
  induction args generalizing result with
  | nil => cases harg
  | cons first args ih =>
      rw [List.mapM_cons] at hresult
      obtain ⟨item, hitem, hresult⟩ := Option.bind_eq_some_iff.mp hresult
      obtain ⟨items, hitems, hresult⟩ := Option.bind_eq_some_iff.mp hresult
      cases hresult
      obtain rfl | harg := List.mem_cons.mp harg
      · exact ⟨item, List.mem_cons_self, hitem⟩
      · obtain ⟨passed, hpassed, hpass⟩ := ih items hitems harg
        exact ⟨passed, List.mem_cons_of_mem _ hpassed, hpass⟩

/-- If the launch is the same after all arguments have become local ones, they have
been local before. -/
theorem ReadsCaptured.isLocal {pass : LaunchArg → Option Passed}
    (hpass : ReadsCaptured pass) (hargs : kernel.args = first :: rest)
    (heq : (launchArgs kernel kernel.capture).mapM pass =
      (launchArgs (clearedBut true kernel first rest ⟨0, none⟩) kernel.capture).mapM pass) :
    ∀ arg ∈ kernel.args, arg.1.isLocal = true := by
  have hlocal : ∀ arg ∈ launchArgs (clearedBut true kernel first rest ⟨0, none⟩)
      kernel.capture, arg.kinds.isLocal = true := by
    intro arg harg
    rw [launchArgs_clearedBut hargs] at harg
    obtain rfl | harg := List.mem_cons.mp harg
    · rfl
    · obtain ⟨other, _, rfl⟩ := List.mem_map.mp harg
      rfl
  have hruns : ∀ arg ∈ launchArgs (clearedBut true kernel first rest ⟨0, none⟩)
      kernel.capture, pass arg ≠ none := by
    intro arg harg hnone
    rw [hpass.local_eq arg (hlocal arg harg)] at hnone
    cases hnone
  obtain ⟨result, hresult⟩ := exists_mapM _ hruns
  intro arg harg
  have hmem : enqueuedArg arg ∈ launchArgs kernel kernel.capture := by
    rw [launchArgs_capture]
    exact List.mem_map_of_mem harg
  obtain ⟨passed, hpassed, hargPass⟩ := exists_passed_of_mem _ result (heq.trans hresult) hmem
  obtain ⟨other, hother, hotherPass⟩ := exists_of_mem_mapM _ result hresult hpassed
  rw [hpass.local_eq other (hlocal other hother), Option.some.injEq] at hotherPass
  rw [← hotherPass] at hargPass
  exact hpass.local_of _ _ hargPass

theorem passed_eq_of_launch_eq {passed₁ passed₂ : Option (List Passed)}
    {locals : List Argument}
    (heq : (do
        let passed ← passed₁
        return (⟨passed ++ passLocals locals, 0⟩ : Launch)) =
      (do
        let passed ← passed₂
        return (⟨passed ++ passLocals locals, 0⟩ : Launch))) :
    passed₁ = passed₂ := by
  cases passed₁ with
  | none =>
      cases passed₂ with
      | none => rfl
      | some _ => cases heq
  | some list₁ =>
      cases passed₂ with
      | none => cases heq
      | some list₂ =>
          have hlists : list₁ ++ passLocals locals = list₂ ++ passLocals locals := by
            simpa using heq
          rw [List.append_cancel_right hlists]

theorem hsaRun_local_ne {memIndex : ℕ} {front : List (ArgKinds × Argument)}
    {arg : ArgKinds × Argument} (hargs : kernel.args = front ++ arg :: rest)
    (hname : kernel.name ≠ "calPriceVega") (hlocal : arg.1.isLocal = true)
    (hruns : ∀ arg ∈ kernel.args, arg.1.isLocal = false → hsaFails arg.1 arg.2 = false) :
    hsaRun memIndex kernel kernel.capture ≠
      hsaRun memIndex
        { kernel with args := front ++ (arg.1, ⟨arg.2.size + 1, none⟩) :: rest }
        kernel.capture := by
  obtain ⟨passed₁, hrun₁⟩ : ∃ passed, hsaRun memIndex _ _ = some ⟨passed, _⟩ :=
    exists_hsaRun_local hargs hname hlocal hruns arg.2
  obtain ⟨passed₂, hrun₂⟩ : ∃ passed, hsaRun memIndex _ _ = some ⟨passed, _⟩ :=
    exists_hsaRun_local hargs hname hlocal hruns ⟨arg.2.size + 1, none⟩
  rw [← hargs] at hrun₁
  rw [hrun₂]
  intro heq
  have hsizes := hrun₁.symm.trans heq
  simp only [Option.some.injEq, Launch.mk.injEq] at hsizes
  omega

end Drivers

section Exactness

theorem CapturedAtEnqueue.enqueued_eq
    (hcaptured : CapturedAtEnqueue hsaRuntime context device kernel) (calls : List SetCall)
    (hcalls : setKernelArgs hsaRuntime kernel calls = some later) :
    run context device kernel kernel.capture = run context device later kernel.capture :=
  hcaptured [] calls kernel later rfl hcalls

theorem exists_findData (hdevice : device ∈ context.devices) :
    ∃ index, findData context device = some index :=
  ⟨_, findData_eq hdevice⟩

theorem exists_findGpu (hdevice : device ∈ context.devices) (hgpu : device.driver = .hsa) :
    ∃ gpu, findGpu context = some gpu := by
  apply Option.isSome_iff_exists.mp
  rw [findGpu, List.find?_isSome]
  exact ⟨device, hdevice, by rw [hgpu]; rfl⟩

/-- The size of a local argument can be changed without changing its kinds. -/
theorem CapturedAtEnqueue.hsa_local {memIndex : ℕ}
    (hcaptured : CapturedAtEnqueue hsaRuntime context device kernel)
    (hrun : ∀ later, run context device later kernel.capture =
      hsaRun memIndex later kernel.capture)
    (hname : kernel.name ≠ "calPriceVega") (hretypes : kernel.retypes hsaRuntime = false)
    (hruns : ∀ arg ∈ kernel.args, arg.1.isLocal = false → hsaFails arg.1 arg.2 = false)
    {arg : ArgKinds × Argument} (harg : arg ∈ kernel.args) :
    arg.1.isLocal = false := by
  by_contra hlocal
  rw [Bool.not_eq_false] at hlocal
  obtain ⟨front, rest, hsplit⟩ := List.append_of_mem harg
  have hset : setKernelArgs hsaRuntime kernel [⟨front.length, arg.2.size + 1, none⟩] =
      some { kernel with
        args := front ++ (arg.1, ⟨arg.2.size + 1, none⟩) :: rest } := by
    simp only [setKernelArgs, List.foldlM_cons, List.foldlM_nil]
    rw [clSetKernelArg_append hsaRuntime front _ none hsplit, hretypes]
    rfl
  have heq := hcaptured.enqueued_eq _ hset
  rw [hrun, hrun] at heq
  exact hsaRun_local_ne hsplit hname hlocal hruns heq

theorem CapturedAtEnqueue.hsa (hdevice : device ∈ context.devices)
    (hdriver : device.driver = .hsa)
    (hcaptured : CapturedAtEnqueue hsaRuntime context device kernel) :
    kernel.args = [] ∨
      kernel.name ≠ "calPriceVega" ∧ kernel.retypes hsaRuntime = false ∧
        ((∀ arg ∈ kernel.args, arg.1.isLocal = false) ∨
          ∃ arg ∈ kernel.args, arg.1.isLocal = false ∧ hsaFails arg.1 arg.2 = true) := by
  obtain ⟨gpu, hgpu⟩ := exists_findGpu hdevice hdriver
  have hrun : ∀ later, run context device later kernel.capture =
      hsaRun gpu.devId later kernel.capture := by
    intro later
    simp [run, hdriver, hgpu]
  by_cases hnil : kernel.args = []
  · exact Or.inl hnil
  · right
    obtain ⟨first, rest, hargs⟩ := List.exists_cons_of_ne_nil hnil
    have heq := hcaptured.clearedBut_eq hargs
    rw [hrun, hrun] at heq
    have hname : kernel.name ≠ "calPriceVega" := by
      intro hname
      exact hsaRun_vega_ne hargs hname _ heq
    have hretypes : kernel.retypes hsaRuntime = false := by
      by_contra htrue
      rw [Bool.not_eq_false] at htrue
      rw [htrue] at heq
      exact hsaRun_retyped_ne hargs hname heq
    refine ⟨hname, hretypes, ?_⟩
    by_cases hfails : ∃ arg ∈ kernel.args, arg.1.isLocal = false ∧ hsaFails arg.1 arg.2 = true
    · exact Or.inr hfails
    · left
      intro arg harg
      apply hcaptured.hsa_local hrun hname hretypes _ harg
      intro other hother hlocal
      rw [← Bool.not_eq_true]
      exact fun hfail => hfails ⟨other, hother, hlocal, hfail⟩

theorem CapturedAtEnqueue.cellspu (hdriver : device.driver = .cellspu)
    (hcaptured : CapturedAtEnqueue hsaRuntime context device kernel) :
    (kernel.args = [] ∧ (kernel.locals = [] ∨ kernel.retypes hsaRuntime = true)) ∨
      kernel.retypes hsaRuntime = false ∧
        ∃ arg ∈ kernel.args, cellspuAborts arg.1 = true := by
  have hrun : ∀ later, run context device later kernel.capture =
      cellspuRun later kernel.capture := by
    intro later
    simp [run, hdriver]
  cases hargs : kernel.args with
  | nil =>
      left
      refine ⟨rfl, ?_⟩
      by_contra hlocals
      rw [not_or, Bool.not_eq_true] at hlocals
      obtain ⟨hne, hretypes⟩ := hlocals
      obtain ⟨automatic, rest, hautomatic⟩ := List.exists_cons_of_ne_nil hne
      have hset : setKernelArgs hsaRuntime kernel [⟨0, automatic.size + 1, none⟩] =
          some { kernel with locals := ⟨automatic.size + 1, none⟩ :: rest } := by
        simp [setKernelArgs, clSetKernelArg, hargs, hautomatic, hretypes]
      have heq := hcaptured.enqueued_eq _ hset
      rw [hrun, hrun] at heq
      simp [cellspuRun, launchArgs, hargs, hautomatic, passLocals] at heq
  | cons first rest =>
      right
      have heq := hcaptured.clearedBut_eq hargs
      rw [hrun, hrun] at heq
      have haborts : ∃ arg ∈ kernel.args,
          cellspuAborts (clearedKinds (kernel.retypes hsaRuntime) arg.1) = true := by
        by_contra hnone
        apply cellspuRun_ne hargs (kernel.retypes hsaRuntime) _ heq
        intro arg harg
        rw [← Bool.not_eq_true]
        exact fun habort => hnone ⟨arg, harg, habort⟩
      obtain ⟨arg, harg, habort⟩ := haborts
      cases hretypes : kernel.retypes hsaRuntime with
      | true =>
          rw [hretypes] at habort
          cases habort
      | false =>
          rw [hretypes] at habort
          exact ⟨rfl, arg, hargs ▸ harg, habort⟩

/-- The drivers that read the captured arguments. -/
theorem CapturedAtEnqueue.isLocal {pass : LaunchArg → Option Passed}
    (hpass : ReadsCaptured pass)
    (hcaptured : CapturedAtEnqueue hsaRuntime context device kernel)
    (hrun : ∀ later, run context device later kernel.capture = (do
      let passed ← (launchArgs later kernel.capture).mapM pass
      return ⟨passed ++ passLocals kernel.capture.locals, 0⟩)) :
    kernel.retypes hsaRuntime = false ∨ ∀ arg ∈ kernel.args, arg.1.isLocal = true := by
  cases hretypes : kernel.retypes hsaRuntime with
  | false => exact Or.inl rfl
  | true =>
      right
      cases hargs : kernel.args with
      | nil =>
          intro arg harg
          cases harg
      | cons first rest =>
          have hclear := setKernelArgs_clear hsaRuntime kernel.args [] kernel rfl
          have heq := hcaptured.enqueued_eq _ hclear
          rw [hrun, hrun] at heq
          have hlists := passed_eq_of_launch_eq heq
          rw [← hargs]
          apply hpass.isLocal hargs
          rw [hlists, hretypes, hargs]
          rfl

theorem capturedAtEnqueue_iff (hdevice : device ∈ context.devices) :
    CapturedAtEnqueue hsaRuntime context device kernel ↔
      ReadsOnlyCaptured hsaRuntime device kernel := by
  constructor
  · intro hcaptured
    have hbasic : ∀ index, findData context device = some index →
        (∀ later, run context device later kernel.capture =
          (findData context device).bind
            (fun index => basicRun index later kernel.capture)) →
        kernel.retypes hsaRuntime = false ∨ ∀ arg ∈ kernel.args, arg.1.isLocal = true := by
      intro index hindex hrun
      apply hcaptured.isLocal (passBasic_readsCaptured index)
      intro later
      rw [hrun, hindex]
      rfl
    obtain ⟨index, hindex⟩ := exists_findData hdevice
    unfold ReadsOnlyCaptured
    cases hdriver : device.driver with
    | basic => exact hbasic index hindex (fun later => by simp [run, hdriver])
    | pthread => exact hbasic index hindex (fun later => by simp [run, hdriver])
    | cellspu => exact hcaptured.cellspu hdriver
    | ttasim =>
        apply hcaptured.isLocal (passTtasim_readsCaptured device.devId)
        intro later
        simp only [run, hdriver]
        rfl
    | hsa => exact hcaptured.hsa hdevice hdriver
  · exact capturedAtEnqueue_of_readsOnlyCaptured

theorem bufferKernel_capturedAtEnqueue :
    ⟨0, 0, .pthread⟩ ∈ platformContext.devices ∧
      CapturedAtEnqueue true platformContext ⟨0, 0, .pthread⟩ (bufferKernel [7]) := by
  have hdevice : ⟨0, 0, .pthread⟩ ∈ platformContext.devices := by decide
  exact ⟨hdevice, (capturedAtEnqueue_iff hdevice).mpr (Or.inl rfl)⟩

/-- A kernel whose only argument is in local memory, of four bytes. -/
def localKernel : Kernel where
  name := "kernel"
  groupSegmentSize := 0
  hasSource := true
  args := [(⟨true, true, false, false, false⟩, ⟨4, none⟩)]
  locals := []

/-- The HSA driver takes the size of the argument from a later call. -/
theorem localKernel_not_capturedAtEnqueue :
    ⟨1, 1, .hsa⟩ ∈ platformContext.devices ∧
      ¬ CapturedAtEnqueue true platformContext ⟨1, 1, .hsa⟩ localKernel := by
  refine ⟨by decide, ?_⟩
  intro hcaptured
  have heq := hcaptured [] [⟨0, 8, none⟩] _ _ rfl rfl
  exact absurd heq (by decide +kernel)

end Exactness

end Pocl.KernelArguments
