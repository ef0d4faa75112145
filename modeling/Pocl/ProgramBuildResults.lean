import Pocl.ProgramBuilds

/-!
# What builds leave in a program

The results of a build from source are found at the indices of the program's devices
exactly if the devices of the list are at the indices they have in the program.  A
build of a program that has binaries already leaves these as they are, or gives them
up; only if the program has been created from source can it be built again then.  So
the second build of a program from source does not see new options, and a failed build
of a program from binaries loses them.
-/

namespace Pocl.ProgramBuilds

variable {devices : List Device} {hsaRuntime : Bool} {compiler : Compiler}
  {program : Program devices} {call : BuildCall devices}

/-- The results for the devices of the list are found at their indices in the
program. -/
def ResultsStored (program : Program devices) (list : List Device)
    (result : Device → Bytes) : Prop :=
  ∀ (i : ℕ) (device : Device), devices[i]? = some device → device ∈ list →
    (∃ binaries, program.binaries = some binaries ∧ binaries[i]? = some (result device)) ∧
      ∃ sizes, program.binarySizes = some sizes ∧ sizes[i]? = some (result device).length

/-- What the compilers make of the source for a device. -/
def result (hsaRuntime : Bool) (compiler : Compiler) (options : Option String)
    (device : Device) : Bytes :=
  compiler.file options (resultFile hsaRuntime device)

/-- What a call leaves in the program. -/
def Bookkept (hsaRuntime : Bool) (compiler : Compiler) (program : Program devices)
    (call : BuildCall devices) : Ending × Program devices → Prop
  | (.rejected _, next) =>
      next.binaries = program.binaries ∧ next.binarySizes = program.binarySizes
  | (.success, next) =>
      if program.source then
        ResultsStored next call.devicesToBuild (result hsaRuntime compiler call.options)
      else next.binaries = program.binaries ∧ next.binarySizes = program.binarySizes
  | (.failure _, next) =>
      if program.source then next.binaries = none
      else next.binaries = program.binaries ∧ next.binarySizes = program.binarySizes
  | (.outOfBounds, _) => False

section Compiling

/-- The device whose file is read for the device at an index of the list: the last one
so far that has a directory. -/
def fileRead (hsaRuntime : Bool) (list : List Device) (i : ℕ) : Option Device :=
  ((list.take (i + 1)).filter (usesDirectory hsaRuntime)).getLast?

theorem compileDevices_ok (list : List Device) (directories : List String)
    (file : Option Device) (start : ℕ)
    (hcompiles : ∀ i < list.length, call.compiles (start + i) = .compiled) :
    ∃ binaries,
      (compileDevices hsaRuntime compiler call start file list directories).1 =
          .ok binaries ∧
        binaries.length = list.length ∧
        ∀ i < list.length, binaries[i]? =
          some (compiler.file call.options ((fileRead hsaRuntime list i).or file)) := by
  induction list generalizing start file directories with
  | nil => exact ⟨[], rfl, rfl, fun i hi => absurd hi (Nat.not_lt_zero i)⟩
  | cons device list ih =>
      have hfirst : call.compiles start = .compiled :=
        hcompiles 0 (Nat.succ_pos _)
      have hrest : ∀ i < list.length, call.compiles (start + 1 + i) = .compiled := by
        intro i hi
        rw [show start + 1 + i = start + (i + 1) by omega]
        exact hcompiles (i + 1) (Nat.succ_lt_succ hi)
      obtain ⟨binaries, hok, hlength, hbinaries⟩ := ih
        (if usesDirectory hsaRuntime device then device.name :: directories
          else directories)
        (if usesDirectory hsaRuntime device then some device else file) (start + 1) hrest
      refine ⟨compiler.file call.options
        (if usesDirectory hsaRuntime device then some device else file) :: binaries,
        ?_, by simp [hlength], ?_⟩
      · unfold compileDevices
        simp only [hfirst, hok]
        rfl
      intro i hi
      cases i with
      | zero =>
          cases huses : usesDirectory hsaRuntime device <;> simp [fileRead, huses]
      | succ i =>
          rw [List.getElem?_cons_succ, hbinaries i (Nat.lt_of_succ_lt_succ hi)]
          unfold fileRead
          rw [List.take_succ_cons]
          cases huses : usesDirectory hsaRuntime device with
          | true =>
              rw [List.filter_cons_of_pos huses, List.getLast?_cons, if_pos rfl]
              cases ((list.take (i + 1)).filter (usesDirectory hsaRuntime)).getLast? <;> rfl
          | false =>
              rw [List.filter_cons_of_neg (by simp [huses]), if_neg (by simp)]

theorem compileDevices_error (list : List Device) (directories : List String)
    (file : Option Device) (start i : ℕ) (hi : i < list.length)
    (hfails : call.compiles (start + i) ≠ .compiled) :
    ∃ code, (compileDevices hsaRuntime compiler call start file list directories).1 =
      .error code := by
  induction list generalizing start file directories i with
  | nil => exact absurd hi (Nat.not_lt_zero i)
  | cons device list ih =>
      cases hfirst : call.compiles start with
      | failed code => exact ⟨code, by simp [compileDevices, hfirst]⟩
      | compiled =>
          cases i with
          | zero => exact absurd hfirst hfails
          | succ i =>
              rw [show start + (i + 1) = start + 1 + i by omega] at hfails
              obtain ⟨code, herror⟩ := ih
                (if usesDirectory hsaRuntime device then device.name :: directories
                  else directories)
                (if usesDirectory hsaRuntime device then some device else file)
                (start + 1) i (Nat.lt_of_succ_lt_succ hi) hfails
              refine ⟨code, ?_⟩
              unfold compileDevices
              simp only [hfirst, herror]
              rfl

end Compiling

section Dumping

variable {list : List Device} {directories : List String}

/-- The binary for a device of the list cannot be written.  For one, the directory may
be there already, also from an earlier device of the same name. -/
def DumpFails (hsaRuntime : Bool) (call : BuildCall devices) (start : ℕ) (list : List Device)
    (directories : List String) (i : ℕ) : Prop :=
  ∃ device, list[i]? = some device ∧ usesDirectory hsaRuntime device = true ∧
    (call.dumps (start + i) ≠ .written ∨ device.name ∈ directories ∨
      ∃ earlier ∈ list.take i, usesDirectory hsaRuntime earlier = true ∧
        earlier.name = device.name)

theorem dumpFails_zero {device : Device} {devices : List Device} {start : ℕ} :
    DumpFails hsaRuntime call start (device :: devices) directories 0 ↔
      usesDirectory hsaRuntime device = true ∧
        (call.dumps start ≠ .written ∨ device.name ∈ directories) := by
  simp [DumpFails]

theorem dumpFails_succ {device : Device} {devices : List Device} {start i : ℕ} :
    DumpFails hsaRuntime call start (device :: devices) directories (i + 1) ↔
      DumpFails hsaRuntime call (start + 1) devices
        (if usesDirectory hsaRuntime device then device.name :: directories
          else directories) i := by
  have hindex : start + (i + 1) = start + 1 + i := by omega
  unfold DumpFails
  rw [List.getElem?_cons_succ, List.take_succ_cons, hindex]
  cases huses : usesDirectory hsaRuntime device with
  | true =>
      simp only [List.mem_cons, exists_eq_or_imp, huses, if_true, true_and]
      constructor
      · rintro ⟨other, hget, hother, hdump | hmem | hname | hearlier⟩
        · exact ⟨other, hget, hother, Or.inl hdump⟩
        · exact ⟨other, hget, hother, Or.inr (Or.inl (Or.inr hmem))⟩
        · exact ⟨other, hget, hother, Or.inr (Or.inl (Or.inl hname.symm))⟩
        · exact ⟨other, hget, hother, Or.inr (Or.inr hearlier)⟩
      · rintro ⟨other, hget, hother, hdump | (hname | hmem) | hearlier⟩
        · exact ⟨other, hget, hother, Or.inl hdump⟩
        · exact ⟨other, hget, hother, Or.inr (Or.inr (Or.inl hname.symm))⟩
        · exact ⟨other, hget, hother, Or.inr (Or.inl hmem)⟩
        · exact ⟨other, hget, hother, Or.inr (Or.inr (Or.inr hearlier))⟩
  | false => simp [List.mem_cons, huses]

theorem DumpFails.lt_length {start i : ℕ}
    (hfails : DumpFails hsaRuntime call start list directories i) : i < list.length := by
  obtain ⟨_, hget, _⟩ := hfails
  exact (List.getElem?_eq_some_iff.mp hget).1

/-- The loop ends with an error if a step fails that comes before the end of the array,
or just after it. -/
theorem dumpBinaries_failure {n : ℕ} (list : List Device) (directories : List String)
    (start i : ℕ) (hi : start + i ≤ n)
    (hfails : DumpFails hsaRuntime call start list directories i) :
    (dumpBinaries hsaRuntime call n start list directories).1 =
      .failure .outOfHostMemory := by
  induction list generalizing start directories i with
  | nil =>
      obtain ⟨_, hget, _⟩ := hfails
      cases hget
  | cons device devices ih =>
      unfold dumpBinaries
      cases i with
      | zero =>
          obtain ⟨huses, hdump⟩ := dumpFails_zero.mp hfails
          rw [if_pos huses]
          split
          · rfl
          next hstep =>
            rw [not_or] at hstep
            split
            · rfl
            next hfile =>
              obtain hwritten | hmem := hdump
              · cases houtcome : call.dumps start with
                | written => exact absurd houtcome hwritten
                | noDirectory => exact absurd houtcome hstep.2
                | noFile => exact absurd houtcome hfile
              · exact absurd hmem hstep.1
      | succ i =>
          have hrest := dumpFails_succ.mp hfails
          have hbound : ¬ n ≤ start := by omega
          split
          next huses =>
            rw [if_pos huses] at hrest
            split
            · rfl
            · split
              · rfl
              · exact ih _ (start + 1) i (by omega) hrest
          next huses =>
            rw [if_neg huses] at hrest
            exact ih _ (start + 1) i (by omega) hrest

/-- If no such step fails, the loop runs to the end of the list or of the array. -/
theorem dumpBinaries_runs {n : ℕ} (list : List Device) (directories : List String)
    (start : ℕ) (hstart : start ≤ n)
    (hruns : ∀ i, start + i ≤ n →
      ¬ DumpFails hsaRuntime call start list directories i) :
    (dumpBinaries hsaRuntime call n start list directories).1 =
      if start + list.length ≤ n then .success else .outOfBounds := by
  induction list generalizing start directories with
  | nil => simp [dumpBinaries, hstart]
  | cons device devices ih =>
      have hrest : start + 1 ≤ n →
          ∀ i, start + 1 + i ≤ n → ¬ DumpFails hsaRuntime call (start + 1) devices
            (if usesDirectory hsaRuntime device then device.name :: directories
              else directories) i := by
        intro _ i hi hfails
        exact hruns (i + 1) (by omega) (dumpFails_succ.mpr hfails)
      have hfirst := hruns 0 (by omega)
      rw [dumpFails_zero, not_and] at hfirst
      rw [List.length_cons]
      unfold dumpBinaries
      split
      next huses =>
        have hsteps := hfirst huses
        rw [not_or, not_ne_iff] at hsteps
        rw [if_pos huses] at hrest
        rw [if_neg (by simp [hsteps.1, hsteps.2]), if_neg (by simp [hsteps.1])]
        split
        next hbound =>
          rw [if_neg (by omega)]
        next hbound =>
          rw [ih _ (start + 1) (by omega) (hrest (by omega))]
          simp only [show start + 1 + devices.length = start + (devices.length + 1) by omega]
      next huses =>
        rw [if_neg huses] at hrest
        split
        next hbound =>
          rw [if_neg (by omega)]
        next hbound =>
          rw [ih _ (start + 1) (by omega) (hrest (by omega))]
          simp only [show start + 1 + devices.length = start + (devices.length + 1) by omega]

end Dumping

section Calls

/-- A step of a build from source fails. -/
def SourceFails (call : BuildCall devices) : Prop :=
  call.allocates = false ∨ call.opensSource = false ∨ call.writesSource = false ∨
    ∃ i < call.devicesToBuild.length, call.compiles i ≠ .compiled

/-- At the index of each device of the list in the program, the list has a device for
which the same file is made. -/
def InPlace (hsaRuntime : Bool) (compiler : Compiler) (call : BuildCall devices) : Prop :=
  ∀ (i : ℕ) (device : Device), devices[i]? = some device → device ∈ call.devicesToBuild →
    i < call.devicesToBuild.length ∧
      compiler.file call.options (fileRead hsaRuntime call.devicesToBuild i) =
        result hsaRuntime compiler call.options device

/-- The condition under which a call leaves in the program what it should. -/
def Meets (hsaRuntime : Bool) (compiler : Compiler) (program : Program devices)
    (call : BuildCall devices) : Prop :=
  rejection program call = none →
    match program.binaries with
    | none => SourceFails call ∨ InPlace hsaRuntime compiler call
    | some binaries =>
        if program.source then
          (∃ i ≤ binaries.length,
            DumpFails hsaRuntime call 0 call.devicesToBuild program.directories i) ∨
          call.devicesToBuild.length ≤ binaries.length ∧
            ResultsStored program call.devicesToBuild
              (result hsaRuntime compiler call.options)
        else
          call.devicesToBuild.length ≤ binaries.length ∧
            ∀ i, ¬ DumpFails hsaRuntime call 0 call.devicesToBuild program.directories i

theorem recordOptions_binaries :
    (recordOptions program call).binaries = program.binaries := by
  unfold recordOptions
  split <;> rfl

theorem recordOptions_binarySizes :
    (recordOptions program call).binarySizes = program.binarySizes := by
  unfold recordOptions
  split <;> rfl

theorem recordOptions_directories :
    (recordOptions program call).directories = program.directories := by
  unfold recordOptions
  split <;> rfl

/-- A program without binaries is only built if it has been created from source. -/
theorem source_of_binaries_none (hrejection : rejection program call = none)
    (hbinaries : program.binaries = none) : program.source = true := by
  by_contra hsource
  rw [Bool.not_eq_true] at hsource
  unfold rejection at hrejection
  split_ifs at hrejection with hnotify hkernels hprogram
  exact hprogram ⟨hsource, hbinaries⟩

theorem clBuildProgram_source (hrejection : rejection program call = none)
    (hbinaries : program.binaries = none) :
    clBuildProgram hsaRuntime compiler program call =
      buildFromSource hsaRuntime compiler (recordOptions program call) call
        call.devicesToBuild := by
  unfold clBuildProgram
  simp only [hrejection, recordOptions_binaries, hbinaries]

theorem clBuildProgram_binaries {binaries : List Bytes}
    (hrejection : rejection program call = none)
    (hbinaries : program.binaries = some binaries) :
    clBuildProgram hsaRuntime compiler program call =
      buildFromBinaries hsaRuntime (recordOptions program call) call
        call.devicesToBuild binaries := by
  unfold clBuildProgram
  simp only [hrejection, recordOptions_binaries, hbinaries]

theorem bookkept_of_rejected {code : ClCode} (hrejection : rejection program call = some code) :
    Bookkept hsaRuntime compiler program call
      (clBuildProgram hsaRuntime compiler program call) := by
  unfold clBuildProgram
  rw [hrejection]
  exact ⟨recordOptions_binaries, recordOptions_binarySizes⟩

theorem bookkept_of_sourceFails (hrejection : rejection program call = none)
    (hbinaries : program.binaries = none) (hfails : SourceFails call) :
    Bookkept hsaRuntime compiler program call
      (clBuildProgram hsaRuntime compiler program call) := by
  have hsource := source_of_binaries_none hrejection hbinaries
  rw [clBuildProgram_source hrejection hbinaries]
  unfold buildFromSource
  split
  · simp [Bookkept, hsource, Program.clean]
  next hsteps =>
    rw [not_or, not_or] at hsteps
    obtain halloc | hopens | hwrites | ⟨i, hi, hcompile⟩ := hfails
    · exact absurd halloc hsteps.1
    · exact absurd hopens hsteps.2.1
    · exact absurd hwrites hsteps.2.2
    · have hcompiled : ∃ code, (compileDevices hsaRuntime compiler call 0 none
          call.devicesToBuild (recordOptions program call).directories).1 = .error code :=
        compileDevices_error _ _ none 0 i hi (by rwa [Nat.zero_add])
      obtain ⟨code, herror⟩ := hcompiled
      simp [herror, Bookkept, hsource, Program.clean]

/-- If no step fails, the results are stored by the index in the list. -/
theorem bookkept_iff_inPlace (hrejection : rejection program call = none)
    (hbinaries : program.binaries = none) (hsteps : ¬ SourceFails call) :
    Bookkept hsaRuntime compiler program call
        (clBuildProgram hsaRuntime compiler program call) ↔
      InPlace hsaRuntime compiler call := by
  have hsource := source_of_binaries_none hrejection hbinaries
  unfold SourceFails at hsteps
  push Not at hsteps
  obtain ⟨halloc, hopens, hwrites, hcompiles⟩ := hsteps
  have hcompiled : ∃ binaries,
      (compileDevices hsaRuntime compiler call 0 none call.devicesToBuild
          (recordOptions program call).directories).1 = .ok binaries ∧
        binaries.length = call.devicesToBuild.length ∧
        ∀ i < call.devicesToBuild.length, binaries[i]? = some (compiler.file call.options
          ((fileRead hsaRuntime call.devicesToBuild i).or none)) :=
    compileDevices_ok _ _ none 0 (by simpa only [Nat.zero_add] using hcompiles)
  obtain ⟨binaries, hok, hlength, hget⟩ := hcompiled
  simp only [Option.or_none] at hget
  rw [clBuildProgram_source hrejection hbinaries]
  unfold buildFromSource
  rw [if_neg (by simp [halloc, hopens, hwrites])]
  simp only [hok, Bookkept, hsource, if_true, ResultsStored, InPlace]
  refine forall_congr' fun i => forall_congr' fun device => imp_congr_right fun _ =>
    imp_congr_right fun _ => ?_
  constructor
  · rintro ⟨⟨stored, hstored, hi⟩, -⟩
    cases hstored
    have hbound := (List.getElem?_eq_some_iff.mp hi).1
    rw [hlength] at hbound
    rw [hget i hbound] at hi
    exact ⟨hbound, Option.some.inj hi⟩
  · rintro ⟨hbound, hfile⟩
    have hstored := (hget i hbound).trans (congrArg some hfile)
    exact ⟨⟨_, rfl, hstored⟩, _, rfl, by rw [List.getElem?_map, hstored]; rfl⟩

theorem bookkept_of_dumpFails {binaries : List Bytes} {i : ℕ}
    (hrejection : rejection program call = none)
    (hbinaries : program.binaries = some binaries) (hi : i ≤ binaries.length)
    (hfails : DumpFails hsaRuntime call 0 call.devicesToBuild program.directories i) :
    Bookkept hsaRuntime compiler program call
        (clBuildProgram hsaRuntime compiler program call) ↔
      program.source = true := by
  have hdump := dumpBinaries_failure (n := binaries.length) call.devicesToBuild
    program.directories 0 i (by omega) hfails
  rw [clBuildProgram_binaries hrejection hbinaries]
  unfold buildFromBinaries
  simp only [recordOptions_directories, hdump, Bookkept]
  cases program.source <;> simp [Program.clean, hbinaries]

/-- The binaries are written, which leaves them as they are. -/
theorem bookkept_of_dumped {binaries : List Bytes}
    (hrejection : rejection program call = none)
    (hbinaries : program.binaries = some binaries)
    (hruns : ∀ i ≤ binaries.length,
      ¬ DumpFails hsaRuntime call 0 call.devicesToBuild program.directories i) :
    Bookkept hsaRuntime compiler program call
        (clBuildProgram hsaRuntime compiler program call) ↔
      call.devicesToBuild.length ≤ binaries.length ∧
        (program.source = true →
          ResultsStored program call.devicesToBuild
            (result hsaRuntime compiler call.options)) := by
  have hdump := dumpBinaries_runs (n := binaries.length) call.devicesToBuild
    program.directories 0 (Nat.zero_le _) (by simpa only [Nat.zero_add] using hruns)
  rw [Nat.zero_add] at hdump
  rw [clBuildProgram_binaries hrejection hbinaries]
  unfold buildFromBinaries
  simp only [recordOptions_directories, hdump]
  by_cases hlength : call.devicesToBuild.length ≤ binaries.length
  · simp only [if_pos hlength, Bookkept, ResultsStored, recordOptions_binaries,
      recordOptions_binarySizes]
    cases program.source <;> simp [hlength]
  · simp [hlength, Bookkept]

theorem bookkept_iff_meets :
    Bookkept hsaRuntime compiler program call
        (clBuildProgram hsaRuntime compiler program call) ↔
      Meets hsaRuntime compiler program call := by
  unfold Meets
  cases hrejection : rejection program call with
  | some code => simp [bookkept_of_rejected hrejection]
  | none =>
      simp only [true_imp_iff]
      cases hbinaries : program.binaries with
      | none =>
          by_cases hfails : SourceFails call
          · simp [bookkept_of_sourceFails hrejection hbinaries hfails, hfails]
          · simp [bookkept_iff_inPlace hrejection hbinaries hfails, hfails]
      | some binaries =>
          by_cases hfails : ∃ i ≤ binaries.length,
              DumpFails hsaRuntime call 0 call.devicesToBuild program.directories i
          · obtain ⟨i, hi, hdump⟩ := hfails
            rw [bookkept_of_dumpFails hrejection hbinaries hi hdump]
            cases hsource : program.source with
            | true => simpa using Or.inl ⟨i, hi, hdump⟩
            | false => simpa using fun _ => ⟨i, hdump⟩
          · have hruns : ∀ i ≤ binaries.length,
                ¬ DumpFails hsaRuntime call 0 call.devicesToBuild program.directories i :=
              fun i hi hdump => hfails ⟨i, hi, hdump⟩
            rw [bookkept_of_dumped hrejection hbinaries hruns]
            cases hsource : program.source with
            | true => simp [hfails]
            | false =>
                simp only [Bool.false_eq_true, if_false, false_imp_iff, and_true]
                refine ⟨fun hlength => ⟨hlength, fun i hdump => ?_⟩, And.left⟩
                have hi := hdump.lt_length
                exact hruns i (by omega) hdump

end Calls

section Runs

/-- A build, or something else that changes what the next build finds: kernels are
created or released, and directories made or removed. -/
inductive Step (devices : List Device)
  | build (call : BuildCall devices)
  | setKernels (hasKernels : Bool)
  | setDirectories (directories : List String)

def Step.next (hsaRuntime : Bool) (compiler : Compiler) (program : Program devices) :
    Step devices → Program devices
  | .build call => (clBuildProgram hsaRuntime compiler program call).2
  | .setKernels hasKernels => { program with hasKernels }
  | .setDirectories directories => { program with directories }

/-- A property of all calls of a run, in the states in which they are made. -/
def AlongBuilds (hsaRuntime : Bool) (compiler : Compiler)
    (property : Program devices → BuildCall devices → Prop) :
    Program devices → List (Step devices) → Prop
  | _, [] => True
  | program, step :: steps =>
      (∀ call, step = .build call → property program call) ∧
        AlongBuilds hsaRuntime compiler property (step.next hsaRuntime compiler program) steps

theorem alongBuilds_congr {first second : Program devices → BuildCall devices → Prop}
    (hproperty : ∀ program call, first program call ↔ second program call)
    (program : Program devices) (steps : List (Step devices)) :
    AlongBuilds hsaRuntime compiler first program steps ↔
      AlongBuilds hsaRuntime compiler second program steps := by
  induction steps generalizing program with
  | nil => exact Iff.rfl
  | cons step steps ih =>
      refine and_congr (forall_congr' fun call => imp_congr_right fun _ => ?_) (ih _)
      exact hproperty program call

/-- The builds of a run leave in the program what they should exactly if they all meet
the condition. -/
theorem builds_bookkept_iff (hsaRuntime : Bool) (compiler : Compiler)
    (program : Program devices) (steps : List (Step devices)) :
    AlongBuilds hsaRuntime compiler
        (fun program call => Bookkept hsaRuntime compiler program call
          (clBuildProgram hsaRuntime compiler program call))
        program steps ↔
      AlongBuilds hsaRuntime compiler (Meets hsaRuntime compiler) program steps :=
  alongBuilds_congr (fun _ _ => bookkept_iff_meets) program steps

def basicDevice : Device := ⟨0, "basic", false⟩

def pthreadDevice : Device := ⟨1, "pthread", false⟩

/-- A file that holds the index of its device. -/
def indexCompiler : Compiler where
  bitcode _ device := [device.id.toUInt8]
  brig _ := []

/-- A program from source that has not been built. -/
def sourceProgram : Program [basicDevice, pthreadDevice] where
  source := true
  hasKernels := false
  compilerOptions := none
  binaries := none
  binarySizes := none
  directories := []

/-- A build for the second device alone, in which every step succeeds. -/
def secondDeviceCall : BuildCall [basicDevice, pthreadDevice] where
  numDevices := 1
  deviceList := some [pthreadDevice]
  options := none
  pfnNotify := false
  userData := false
  allocates := true
  opensSource := true
  writesSource := true
  compiles _ := .compiled
  dumps _ := .written
  list := by simp

/-- The result for the second device is stored at index 0, and none at index 1. -/
theorem secondDeviceCall_not_bookkept :
    (clBuildProgram false indexCompiler sourceProgram secondDeviceCall).1 = .success ∧
      (clBuildProgram false indexCompiler sourceProgram secondDeviceCall).2.binaries =
        some [[1]] ∧
      ¬ AlongBuilds false indexCompiler
        (fun program call => Bookkept false indexCompiler program call
          (clBuildProgram false indexCompiler program call))
        sourceProgram [.build secondDeviceCall] := by
  refine ⟨by decide, by decide, ?_⟩
  rintro ⟨hbookkept, _⟩
  have hstored := hbookkept secondDeviceCall rfl
  obtain ⟨⟨binaries, hbinaries, hget⟩, _⟩ := hstored 1 pthreadDevice rfl (by decide)
  have hstored : some [[1]] = some binaries := hbinaries
  cases hstored
  cases hget

end Runs

end Pocl.ProgramBuilds
