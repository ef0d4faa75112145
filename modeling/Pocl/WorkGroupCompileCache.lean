import Pocl.WorkGroupCompilation

/-!
# The cache of compiled work-group functions

A call should run a command only if the file for its kernel, device, local size and
offset is missing, and then the complete one.  As the command is run in any case, and
its array is written only if the file is missing, the calls that do so are those that
find no file, and whose names fit into the arrays.
-/

namespace Pocl.WorkGroupCompilation

variable {install : Install} {system : System} {enqueue : Enqueue}
  {localSize offset : Sizes} {files : Files}

/-- The file with the work-group function for the local size and the offset. -/
def Enqueue.compiledFile (enqueue : Enqueue) (localSize offset : Sizes) : CString :=
  parallelFile (enqueue.tmpdirName localSize offset)

def Enqueue.completeCommand (enqueue : Enqueue) (install : Install)
    (localSize offset : Sizes) : CString :=
  enqueue.commandLine install localSize (enqueue.compiledFile localSize offset)
    enqueue.kernelFile

/-- A command is run only if the compiled file is missing; it is the complete one, and
`kernel.bc` holds the binary for the device.  If the file is there, the call succeeds
without a command. -/
structure Outcome.UsesCache (outcome : Outcome) (install : Install) (enqueue : Enqueue)
    (localSize offset : Sizes) (files : Files) : Prop where
  commands : ∀ entry ∈ outcome.commands,
    files (enqueue.compiledFile localSize offset) = none ∧
      entry.1 = enqueue.completeCommand install localSize offset ∧
      entry.2 enqueue.kernelFile = some enqueue.ownBinary
  found : files (enqueue.compiledFile localSize offset) ≠ none →
    outcome.result = .ok () ∧ outcome.commands = [] ∧
      outcome.files enqueue.kernelFile = some enqueue.ownBinary

/-- The call ends because `kernel.bc` is missing and cannot be written. -/
def Enqueue.Stops (enqueue : Enqueue) (files : Files) : Prop :=
  files (snprintf filenameLength enqueue.kernelFile) = none ∧
    (enqueue.fopens = false ∨ enqueue.written < enqueue.firstBinary.length)

/-- The names of the files and the command fit into their arrays. -/
structure Enqueue.Fits (enqueue : Enqueue) (install : Install) (localSize offset : Sizes) :
    Prop where
  kernel : enqueue.kernelFile.length < filenameLength
  parallel : (enqueue.compiledFile localSize offset).length < filenameLength
  command : (enqueue.completeCommand install localSize offset).length < commandLength

/-- The compiled file is missing.  If the call gets to the command, the names fit, and
`kernel.bc` is there with the binary for the device, or that is the first binary of the
program. -/
def Enqueue.Misses (enqueue : Enqueue) (install : Install) (localSize offset : Sizes)
    (files : Files) : Prop :=
  files (enqueue.compiledFile localSize offset) = none ∧
    (enqueue.Stops files ∨
      enqueue.Fits install localSize offset ∧
        (files enqueue.kernelFile = some enqueue.ownBinary ∨
          files enqueue.kernelFile = none ∧ enqueue.firstBinary = enqueue.ownBinary))

section Names

theorem snprintf_length_le (length : ℕ) (text : CString) :
    (snprintf length text).length ≤ text.length := by
  simp [snprintf]

theorem snprintf_eq_of_lt {length : ℕ} {text : CString} (hlength : text.length < length) :
    snprintf length text = text := by
  apply List.take_of_length_le
  omega

theorem lt_of_snprintf_length {length : ℕ} {text : CString} (hpos : 0 < length)
    (hlength : (snprintf length text).length = text.length) : text.length < length := by
  simp only [snprintf, List.length_take] at hlength
  omega

theorem length_parallelFile (tmpdir : CString) :
    (parallelFile tmpdir).length = tmpdir.length + 12 := by
  simp [parallelFile]

/-- The files `kernel.bc` and `parallel.bc` are different. -/
theorem kernelFile_ne_parallelFile (enqueue : Enqueue) (tmpdir : CString) :
    enqueue.kernelFile ≠ parallelFile tmpdir := by
  intro heq
  have hreverse := congrArg (fun name => (List.reverse name)[5]?) heq
  simp [Enqueue.kernelFile, parallelFile] at hreverse

theorem length_commandLine (parallelFilename kernelFilename : CString) :
    (enqueue.commandLine install localSize parallelFilename kernelFilename).length =
      (enqueue.commandLine install localSize [] []).length +
        (parallelFilename.length + kernelFilename.length) := by
  simp only [Enqueue.commandLine, List.length_append, List.length_cons, List.length_nil]
  omega

end Names

section Calls

theorem writeKernel_stops_iff :
    (enqueue.writeKernel (snprintf filenameLength enqueue.kernelFile) files).1 = false ↔
      enqueue.Stops files := by
  unfold Enqueue.writeKernel Enqueue.Stops
  by_cases hfile : files (snprintf filenameLength enqueue.kernelFile) = none
  · cases hopens : enqueue.fopens <;> simp [hfile]
  · simp [hfile]

/-- The array for the command when it is run. -/
def command (install : Install) (enqueue : Enqueue) (localSize offset : Sizes)
    (uninitialized : CString) (files : Files) : CString :=
  let parallelFilename := snprintf filenameLength
    (parallelFile (snprintf filenameLength (enqueue.tmpdirName localSize offset)))
  if files parallelFilename = none then
    snprintf commandLength (enqueue.commandLine install localSize parallelFilename
      (snprintf filenameLength enqueue.kernelFile))
  else uninitialized

theorem compile_stops (uninitialized : CString) (hstops : enqueue.Stops files) :
    (compile install system enqueue localSize offset uninitialized files).result =
        .error .outOfHostMemory ∧
      (compile install system enqueue localSize offset uninitialized files).commands = [] := by
  have hfalse := writeKernel_stops_iff.mpr hstops
  simp [compile, hfalse]

theorem compile_commands (uninitialized : CString) (hruns : ¬ enqueue.Stops files) :
    (compile install system enqueue localSize offset uninitialized files).commands =
      [(command install enqueue localSize offset uninitialized
          (enqueue.writeKernel (snprintf filenameLength enqueue.kernelFile) files).2,
        (enqueue.writeKernel (snprintf filenameLength enqueue.kernelFile) files).2)] := by
  rw [← writeKernel_stops_iff] at hruns
  unfold compile
  rw [if_neg hruns]
  rfl

/-- The command is complete exactly if all names fit and the compiled file is
missing. -/
theorem command_complete_iff :
    (∀ uninitialized, command install enqueue localSize offset uninitialized files =
        enqueue.completeCommand install localSize offset) ↔
      enqueue.Fits install localSize offset ∧
        files (enqueue.compiledFile localSize offset) = none := by
  constructor
  · intro hcomplete
    have hmissing : files (snprintf filenameLength (parallelFile (snprintf filenameLength
        (enqueue.tmpdirName localSize offset)))) = none := by
      by_contra hthere
      have hlonger := hcomplete (' ' :: enqueue.completeCommand install localSize offset)
      rw [command, if_neg hthere] at hlonger
      have hlength := congrArg List.length hlonger
      rw [List.length_cons] at hlength
      omega
    have hcommand := hcomplete []
    rw [command, if_pos hmissing] at hcommand
    have hlength := congrArg List.length hcommand
    have hcut := snprintf_length_le commandLength (enqueue.commandLine install localSize
      (snprintf filenameLength (parallelFile (snprintf filenameLength
        (enqueue.tmpdirName localSize offset)))) (snprintf filenameLength enqueue.kernelFile))
    have hkernel := snprintf_length_le filenameLength enqueue.kernelFile
    have hparallel := snprintf_length_le filenameLength
      (parallelFile (snprintf filenameLength (enqueue.tmpdirName localSize offset)))
    have htmpdir := snprintf_length_le filenameLength (enqueue.tmpdirName localSize offset)
    rw [Enqueue.completeCommand, length_commandLine (enqueue.compiledFile localSize offset),
      Enqueue.compiledFile, length_parallelFile] at hlength
    rw [length_commandLine] at hcut
    rw [length_parallelFile] at hparallel
    -- every cut would make the command shorter
    have htmpdirLt : (enqueue.tmpdirName localSize offset).length < filenameLength :=
      lt_of_snprintf_length (by decide) (by omega)
    have hkernelLt : enqueue.kernelFile.length < filenameLength :=
      lt_of_snprintf_length (by decide) (by omega)
    rw [snprintf_eq_of_lt htmpdirLt] at hparallel hlength hcut hmissing hcommand
    have hparallelLt : (parallelFile (enqueue.tmpdirName localSize offset)).length <
        filenameLength :=
      lt_of_snprintf_length (by decide) (by rw [length_parallelFile]; omega)
    rw [snprintf_eq_of_lt hparallelLt] at hmissing hcommand
    rw [snprintf_eq_of_lt hkernelLt] at hcommand
    refine ⟨⟨hkernelLt, hparallelLt, ?_⟩, hmissing⟩
    exact lt_of_snprintf_length (by decide) (congrArg List.length hcommand)
  · rintro ⟨hfits, hmissing⟩ uninitialized
    have htmpdir : (enqueue.tmpdirName localSize offset).length < filenameLength := by
      have hparallel := hfits.parallel
      rw [Enqueue.compiledFile, length_parallelFile] at hparallel
      omega
    rw [command, snprintf_eq_of_lt htmpdir, snprintf_eq_of_lt hfits.kernel]
    have hname : snprintf filenameLength (parallelFile (enqueue.tmpdirName localSize offset)) =
        enqueue.compiledFile localSize offset :=
      snprintf_eq_of_lt hfits.parallel
    rw [hname, if_pos hmissing]
    exact snprintf_eq_of_lt hfits.command

/-- After the writing, `kernel.bc` holds what it held or the first binary. -/
theorem writeKernel_kernelFile (hfits : enqueue.kernelFile.length < filenameLength)
    (hruns : ¬ enqueue.Stops files) :
    (enqueue.writeKernel (snprintf filenameLength enqueue.kernelFile) files).2
        enqueue.kernelFile =
      if files enqueue.kernelFile = none then some enqueue.firstBinary
      else files enqueue.kernelFile := by
  rw [Enqueue.Stops, snprintf_eq_of_lt hfits, not_and_or, not_or, Bool.not_eq_false,
    Nat.not_lt] at hruns
  rw [snprintf_eq_of_lt hfits, Enqueue.writeKernel]
  by_cases hfile : files enqueue.kernelFile = none
  · obtain hthere | ⟨hopens, hwritten⟩ := hruns
    · exact absurd hfile hthere
    · simp [hfile, hopens, List.take_of_length_le hwritten]
  · simp [hfile]

theorem writeKernel_of_ne {name : CString}
    (hname : name ≠ snprintf filenameLength enqueue.kernelFile) :
    (enqueue.writeKernel (snprintf filenameLength enqueue.kernelFile) files).2 name =
      files name := by
  unfold Enqueue.writeKernel
  split
  · rfl
  · split
    · rfl
    · exact Function.update_of_ne hname _ _

theorem writeKernel_compiledFile (hfits : enqueue.kernelFile.length < filenameLength) :
    (enqueue.writeKernel (snprintf filenameLength enqueue.kernelFile) files).2
        (enqueue.compiledFile localSize offset) =
      files (enqueue.compiledFile localSize offset) := by
  apply writeKernel_of_ne
  rw [snprintf_eq_of_lt hfits]
  exact (kernelFile_ne_parallelFile enqueue _).symm

theorem usesCache_of_misses (hmisses : enqueue.Misses install localSize offset files)
    (uninitialized : CString) :
    (compile install system enqueue localSize offset uninitialized files).UsesCache
      install enqueue localSize offset files where
  commands := by
    intro entry hentry
    by_cases hstops : enqueue.Stops files
    · rw [(compile_stops uninitialized hstops).2] at hentry
      cases hentry
    · obtain ⟨hmissing, hstops' | ⟨hfits, hkernel⟩⟩ := hmisses
      · exact absurd hstops' hstops
      · rw [compile_commands uninitialized hstops, List.mem_singleton] at hentry
        subst hentry
        refine ⟨hmissing, ?_, ?_⟩
        · apply command_complete_iff.mpr
          exact ⟨hfits, by rw [writeKernel_compiledFile hfits.kernel]; exact hmissing⟩
        · rw [writeKernel_kernelFile hfits.kernel hstops]
          obtain hown | ⟨hnone, hown⟩ := hkernel
          · simp [hown]
          · simp [hnone, hown]
  found := by
    intro hthere
    exact absurd hmisses.1 hthere

theorem misses_of_usesCache
    (huses : ∀ uninitialized,
      (compile install system enqueue localSize offset uninitialized files).UsesCache
        install enqueue localSize offset files) :
    enqueue.Misses install localSize offset files := by
  have hmissing : files (enqueue.compiledFile localSize offset) = none := by
    by_contra hthere
    obtain ⟨hresult, hcommands, _⟩ := (huses []).found hthere
    by_cases hstops : enqueue.Stops files
    · rw [(compile_stops [] hstops).1] at hresult
      cases hresult
    · rw [compile_commands [] hstops] at hcommands
      cases hcommands
  refine ⟨hmissing, ?_⟩
  by_cases hstops : enqueue.Stops files
  · exact Or.inl hstops
  · right
    have hentry := fun uninitialized => (huses uninitialized).commands _ (by
      rw [compile_commands uninitialized hstops]
      exact List.mem_cons_self)
    obtain ⟨hfits, _⟩ := command_complete_iff.mp (fun uninitialized =>
      (hentry uninitialized).2.1)
    refine ⟨hfits, ?_⟩
    have hkernel := (hentry []).2.2
    simp only [writeKernel_kernelFile hfits.kernel hstops] at hkernel
    split at hkernel
    next hnone => exact Or.inr ⟨hnone, Option.some.inj hkernel⟩
    next => exact Or.inl hkernel

end Calls

section Runs

/-- A step of a run: a call, with what the array for the command holds before it, or
a change of the files from outside. -/
inductive Step
  | enqueue (enqueue : Enqueue) (uninitialized : CString)
  | changeFiles (files : Files)

def Step.next (install : Install) (system : System) (files : Files) : Step → Files
  | .enqueue enqueue uninitialized => (run install system enqueue uninitialized files).files
  | .changeFiles files => files

/-- The sizes of a call that passes the checks. -/
def Enqueue.context (enqueue : Enqueue) : Except NDRangeFailure PoclContext :=
  clEnqueueNDRangeKernel enqueue.device { enqueue.range with building := .ok () }

/-- Whatever the array for the command holds before, the call uses the cache. -/
def Step.UsesCache (install : Install) (system : System) (files : Files) : Step → Prop
  | .enqueue enqueue _ =>
      ∀ context, enqueue.context = .ok context → ∀ uninitialized,
        (run install system enqueue uninitialized files).UsesCache install enqueue
          context.localSize context.globalOffset files
  | .changeFiles _ => True

def Step.Misses (install : Install) (files : Files) : Step → Prop
  | .enqueue enqueue _ =>
      ∀ context, enqueue.context = .ok context →
        enqueue.Misses install context.localSize context.globalOffset files
  | .changeFiles _ => True

/-- A property of all steps of a run, in the states in which they are made. -/
def Along (install : Install) (system : System) (property : Files → Step → Prop) :
    Files → List Step → Prop
  | _, [] => True
  | files, step :: steps =>
      property files step ∧
        Along install system property (step.next install system files) steps

theorem step_usesCache_iff (files : Files) (step : Step) :
    step.UsesCache install system files ↔ step.Misses install files := by
  cases step with
  | enqueue enqueue uninitialized =>
      have hrun : ∀ context, enqueue.context = .ok context → ∀ uninitialized,
          run install system enqueue uninitialized files =
            compile install system enqueue context.localSize context.globalOffset
              uninitialized files := by
        intro context hcontext uninitialized
        rw [Enqueue.context] at hcontext
        rw [run, hcontext]
      constructor
      · intro huses context hcontext
        apply misses_of_usesCache
        intro uninitialized
        rw [← hrun context hcontext]
        exact huses context hcontext uninitialized
      · intro hmisses context hcontext uninitialized
        rw [hrun context hcontext]
        exact usesCache_of_misses (hmisses context hcontext) uninitialized
  | changeFiles files => exact Iff.rfl

theorem along_congr {first second : Files → Step → Prop}
    (hproperty : ∀ files step, first files step ↔ second files step)
    (files : Files) (steps : List Step) :
    Along install system first files steps ↔ Along install system second files steps := by
  induction steps generalizing files with
  | nil => exact Iff.rfl
  | cons step steps ih => exact and_congr (hproperty files step) (ih _)

/-- The calls of a run use the cache exactly if they all miss it. -/
theorem run_usesCache_iff (install : Install) (system : System)
    (files : Files) (steps : List Step) :
    Along install system (fun files step => step.UsesCache install system files)
        files steps ↔
      Along install system (fun files step => step.Misses install files) files steps :=
  along_congr step_usesCache_iff files steps

def plainInstall : Install where
  buildDir := "/build".toList
  pkgDataDir := "/usr".toList

/-- A one-dimensional launch of four work-items in one group. -/
def plainEnqueue : Enqueue where
  range :=
    { workDim := 1
      globalWorkOffset := none
      globalWorkSize := ⟨4, 1, 1⟩
      localWorkSize := some ⟨4, 1, 1⟩
      deviceOfKernel := true
      eventWaitList := false
      numEventsInWaitList := 0
      building := .ok () }
  device :=
    { isCpu := true
      maxWorkItemDimensions := 3
      maxWorkGroupSize := 1024
      maxWorkItemSizes := ⟨1024, 1024, 1024⟩
      preferredWgSizeMultiple := 8 }
  deviceName := "pthread".toList
  llvmTargetTriplet := none
  tempDir := "/tmp".toList
  kernelName := "add".toList
  functionName := "add".toList
  binaries := [[1, 2, 3]]
  deviceIndex := ⟨0, by decide⟩
  building := false
  scriptInstalled := true
  fopens := true
  written := 3
  cpu := rfl

def plainContext : PoclContext where
  workDim := 1
  numGroups := ⟨1, 1, 1⟩
  globalOffset := ⟨0, 0, 0⟩
  globalSize := ⟨4, 1, 1⟩
  localSize := ⟨4, 1, 1⟩

theorem plainEnqueue_context : plainEnqueue.context = .ok plainContext := rfl

/-- Every command succeeds, and leaves the compiled file of the launch. -/
def compilingSystem : System :=
  fun _ files =>
    (0, Function.update files (plainEnqueue.compiledFile ⟨4, 1, 1⟩ ⟨0, 0, 0⟩) (some []))

theorem compile_files (uninitialized : CString) (hruns : ¬ enqueue.Stops files) :
    (compile install system enqueue localSize offset uninitialized files).files =
      (system
        (command install enqueue localSize offset uninitialized
          (enqueue.writeKernel (snprintf filenameLength enqueue.kernelFile) files).2)
        (enqueue.writeKernel (snprintf filenameLength enqueue.kernelFile) files).2).2 := by
  rw [← writeKernel_stops_iff] at hruns
  unfold compile
  rw [if_neg hruns]
  rfl

theorem plainEnqueue_next :
    Step.next plainInstall compilingSystem (fun _ => none) (.enqueue plainEnqueue [])
      (plainEnqueue.compiledFile ⟨4, 1, 1⟩ ⟨0, 0, 0⟩) = some [] := by
  have hruns : ¬ plainEnqueue.Stops (fun _ => none) := by
    rintro ⟨_, hopens | hwritten⟩
    · cases hopens
    · exact absurd hwritten (by decide)
  have hcontext := plainEnqueue_context
  rw [Enqueue.context] at hcontext
  rw [Step.next, run, hcontext]
  change (compile _ _ _ _ _ _ _).files _ = _
  rw [compile_files [] hruns]
  simp [compilingSystem]

/-- The second of two calls finds the file that the first one has compiled, and runs a
command nevertheless. -/
theorem repeatedEnqueue_not_usesCache :
    ¬ Along plainInstall compilingSystem
      (fun files step => step.UsesCache plainInstall compilingSystem files) (fun _ => none)
      [.enqueue plainEnqueue [], .enqueue plainEnqueue []] := by
  rintro ⟨_, hsecond, _⟩
  have hmisses := (step_usesCache_iff _ _).mp hsecond plainContext plainEnqueue_context
  have hmissing := hmisses.1
  rw [show plainContext.localSize = ⟨4, 1, 1⟩ from rfl,
    show plainContext.globalOffset = ⟨0, 0, 0⟩ from rfl, plainEnqueue_next] at hmissing
  cases hmissing

end Runs

end Pocl.WorkGroupCompilation
