import Mathlib.Data.List.Basic

/-!
# Builds of programs

`clBuildProgram` compiles a program that has no binaries from its source, for the
devices of the list, and stores the results by the index in this list.  A program
with binaries, be it created from them or compiled before, is not compiled; its
binaries are written to a new directory for each device.

Whether a step succeeds is part of a call.  What the compiler makes of the source for
a device and given options is a parameter, and so is the module for the HSA runtime.
Failures of this runtime end the process and are left out.
-/

namespace Pocl.ProgramBuilds

abbrev Bytes := List UInt8

structure Device where
  id : ℕ
  name : String
  isGpu : Bool
  deriving DecidableEq

inductive ClCode
  | invalidProgram
  | invalidValue
  | invalidOperation
  | outOfHostMemory
  | buildProgramFailure
  deriving DecidableEq

/-- The result of the compile step for a device. -/
inductive CompileOutcome
  | compiled
  | failed (code : ClCode)
  deriving DecidableEq

/-- The result of writing a binary to the directory of a device, if there is no such
directory yet. -/
inductive DumpOutcome
  | written
  | noDirectory
  | noFile
  deriving DecidableEq

/-- A program for the given devices. -/
structure Program (devices : List Device) where
  /-- Whether the program has been created from source. -/
  source : Bool
  hasKernels : Bool
  compilerOptions : Option String
  binaries : Option (List Bytes)
  binarySizes : Option (List ℕ)
  /-- The devices that have a directory, by name. -/
  directories : List String
  deriving DecidableEq

structure BuildCall (devices : List Device) where
  numDevices : ℕ
  deviceList : Option (List Device)
  options : Option String
  pfnNotify : Bool
  userData : Bool
  allocates : Bool
  opensSource : Bool
  writesSource : Bool
  compiles : ℕ → CompileOutcome
  dumps : ℕ → DumpOutcome
  /-- The list has the given number of entries, which are devices of the program. -/
  list : ∀ list ∈ deviceList, list.length = numDevices ∧ ∀ device ∈ list, device ∈ devices

/-- How a call ends: with an error before the build, with success, with an error of
the build, or with an access outside of the array of the binaries. -/
inductive Ending
  | rejected (code : ClCode)
  | success
  | failure (code : ClCode)
  | outOfBounds
  deriving DecidableEq

/-- What the compilers make of the source, with the given options. -/
structure Compiler where
  /-- The file in the directory of a device. -/
  bitcode : String → Device → Bytes
  /-- `program.brig`, which is the same for all devices of the HSA runtime. -/
  brig : Option String → Bytes

section Steps

variable {devices : List Device} (hsaRuntime : Bool)

/-- Whether the bitcode of a device is handled in the directory of the device. -/
def usesDirectory (device : Device) : Bool :=
  !(hsaRuntime && device.isGpu)

/-- The file in the directory of the given device, or `program.brig` if there is none. -/
def Compiler.file (compiler : Compiler) (options : Option String) : Option Device → Bytes
  | none => compiler.brig options
  | some device => compiler.bitcode (options.getD "") device

/-- The file with the result for a device. -/
def resultFile (device : Device) : Option Device :=
  if usesDirectory hsaRuntime device then some device else none

/-- The loop over the devices that compiles the source.  For a device of the HSA
runtime it reads the file that `binary_file_name` stands for, which is `program.brig`
before the loop. -/
def compileDevices (compiler : Compiler) (call : BuildCall devices) :
    ℕ → Option Device → List Device → List String →
      Except ClCode (List Bytes) × List String
  | _, _, [], directories => (.ok [], directories)
  | i, file, device :: devices, directories =>
      let file := if usesDirectory hsaRuntime device then some device else file
      let directories :=
        if usesDirectory hsaRuntime device then device.name :: directories else directories
      match call.compiles i with
      | .failed code => (.error code, directories)
      | .compiled =>
          let rest := compileDevices compiler call (i + 1) file devices directories
          (rest.1.map (fun binaries => compiler.file call.options file :: binaries), rest.2)

/-- The loop over the devices that writes the binaries. -/
def dumpBinaries (call : BuildCall devices) (numBinaries : ℕ) :
    ℕ → List Device → List String → Ending × List String
  | _, [], directories => (.success, directories)
  | i, device :: devices, directories =>
      if usesDirectory hsaRuntime device then
        if device.name ∈ directories ∨ call.dumps i = .noDirectory then
          (.failure .outOfHostMemory, directories)
        else if call.dumps i = .noFile then
          (.failure .outOfHostMemory, device.name :: directories)
        else if numBinaries ≤ i then (.outOfBounds, device.name :: directories)
        else dumpBinaries call numBinaries (i + 1) devices (device.name :: directories)
      else if numBinaries ≤ i then (.outOfBounds, directories)
      else dumpBinaries call numBinaries (i + 1) devices directories

/-- `ERROR_CLEAN_PROGRAM` -/
def Program.clean (program : Program devices) : Program devices :=
  { program with binaries := none, binarySizes := none }

def buildFromSource (compiler : Compiler) (program : Program devices) (call : BuildCall devices)
    (list : List Device) : Ending × Program devices :=
  if call.allocates = false ∨ call.opensSource = false ∨ call.writesSource = false then
    (.failure .outOfHostMemory, program.clean)
  else
    let compiled :=
      compileDevices hsaRuntime compiler call 0 none list program.directories
    let program := { program with directories := compiled.2 }
    match compiled.1 with
    | .error code => (.failure code, program.clean)
    | .ok binaries =>
        (.success, { program with
          binaries := some binaries
          binarySizes := some (binaries.map List.length) })

def buildFromBinaries (program : Program devices) (call : BuildCall devices) (list : List Device)
    (binaries : List Bytes) : Ending × Program devices :=
  let dumped := dumpBinaries hsaRuntime call binaries.length 0 list program.directories
  let program := { program with directories := dumped.2 }
  match dumped.1 with
  | .failure code => (.failure code, program.clean)
  | ending => (ending, program)

/-- The devices a call builds the program for. -/
def BuildCall.devicesToBuild (call : BuildCall devices) : List Device :=
  if call.numDevices = 0 then devices else call.deviceList.getD []

/-- The checks of the arguments, after which the build starts. -/
def rejection (program : Program devices) (call : BuildCall devices) : Option ClCode :=
  if call.pfnNotify = false ∧ call.userData = true then some .invalidValue
  else if program.hasKernels then some .invalidOperation
  else if program.source = false ∧ program.binaries = none then some .invalidProgram
  else if (0 < call.numDevices ∧ call.deviceList = none) ∨
      (call.numDevices = 0 ∧ call.deviceList ≠ none) then some .invalidValue
  else none

/-- Options are recorded unless the call ends with one of the first two checks. -/
def recordOptions (program : Program devices) (call : BuildCall devices) :
    Program devices :=
  if call.pfnNotify = false ∧ call.userData = true ∨ program.hasKernels = true then program
  else { program with compilerOptions := call.options }

def clBuildProgram (compiler : Compiler) (program : Program devices) (call : BuildCall devices) :
    Ending × Program devices :=
  match rejection program call with
  | some code => (.rejected code, recordOptions program call)
  | none =>
      let program := recordOptions program call
      match program.binaries with
      | none => buildFromSource hsaRuntime compiler program call call.devicesToBuild
      | some binaries =>
          buildFromBinaries hsaRuntime program call call.devicesToBuild binaries

end Steps

end Pocl.ProgramBuilds
