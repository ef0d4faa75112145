import Pocl.NDRanges

/-!
# The compilation of work-group functions

For a queue of a CPU device, `clEnqueueNDRangeKernel` writes the binary of the
program to `kernel.bc`, if there is no such file, and runs the script that compiles
it to `parallel.bc` for the local size.  The names of the files and the command are
written to arrays of fixed size.

A file system is given by the contents of its files.  What `fopen` and `fwrite` do
is part of a call, as is what the array for the command holds before it is written.
-/

namespace Pocl.WorkGroupCompilation

abbrev CString := List Char

abbrev Bytes := List UInt8

abbrev Files := CString → Option Bytes

/-- `POCL_FILENAME_LENGTH` -/
def filenameLength : ℕ := 1024

/-- `COMMAND_LENGTH` -/
def commandLength : ℕ := 1024

/-- The text that `snprintf` leaves in an array of the given length. -/
def snprintf (length : ℕ) (text : CString) : CString :=
  text.take (length - 1)

def decimal (n : SizeT) : CString :=
  Nat.toDigits 10 n.toNat

structure Install where
  buildDir : CString
  pkgDataDir : CString

/-- A call for a queue of a CPU device, with the fields of the device, the kernel
and its program that are read. -/
structure Enqueue where
  range : NDRangeCall
  device : NDRangeDevice
  deviceName : CString
  llvmTargetTriplet : Option CString
  tempDir : CString
  kernelName : CString
  functionName : CString
  binaries : List Bytes
  /-- The index of the device of the queue in the program. -/
  deviceIndex : Fin binaries.length
  /-- Whether `POCL_BUILDING` is set. -/
  building : Bool
  scriptInstalled : Bool
  fopens : Bool
  /-- The number of bytes that `fwrite` writes, if there are that many. -/
  written : ℕ
  cpu : device.isCpu = true

/-- `POCL_PARALLEL_BC_FILENAME` in a directory. -/
def parallelFile (tmpdir : CString) : CString :=
  tmpdir ++ "/parallel.bc".toList

namespace Enqueue

variable (enqueue : Enqueue)

def firstBinary : Bytes :=
  enqueue.binaries.head (List.ne_nil_of_length_pos
    (Nat.lt_of_le_of_lt (Nat.zero_le _) enqueue.deviceIndex.isLt))

/-- The binary for the device of the queue. -/
def ownBinary : Bytes :=
  enqueue.binaries.get enqueue.deviceIndex

/-- The directory of the kernel for the device. -/
def kernelDir : CString :=
  enqueue.tempDir ++ '/' :: enqueue.deviceName ++ '/' :: enqueue.kernelName

def triple (sizes : Sizes) : CString :=
  decimal sizes.x ++ '-' :: decimal sizes.y ++ '-' :: decimal sizes.z

def tmpdirName (localSize offset : Sizes) : CString :=
  enqueue.kernelDir ++ '/' :: triple localSize ++ '.' :: triple offset

def kernelFile : CString :=
  enqueue.kernelDir ++ "/kernel.bc".toList

def script (install : Install) : CString :=
  if enqueue.building then install.buildDir ++ "/scripts/pocl-workgroup".toList
  else if enqueue.scriptInstalled then install.pkgDataDir ++ "/pocl-workgroup".toList
  else "pocl-workgroup".toList

def commandLine (install : Install) (localSize : Sizes)
    (parallelFilename kernelFilename : CString) : CString :=
  enqueue.script install ++ " -k ".toList ++ enqueue.functionName ++
    " -x ".toList ++ decimal localSize.x ++ " -y ".toList ++ decimal localSize.y ++
    " -z ".toList ++ decimal localSize.z ++
    (match enqueue.llvmTargetTriplet with
      | some target => " -t ".toList ++ target
      | none => []) ++
    " -o ".toList ++ parallelFilename ++ ' ' :: kernelFilename

/-- The contents of `kernel.bc` are written if there is no such file. -/
def writeKernel (kernelFilename : CString) (files : Files) : Bool × Files :=
  if files kernelFilename ≠ none then (true, files)
  else if enqueue.fopens = false then (false, files)
  else
    (decide (enqueue.firstBinary.length ≤ enqueue.written),
      Function.update files kernelFilename (some (enqueue.firstBinary.take enqueue.written)))

end Enqueue

/-- What a call does: its result, the commands it runs, each with the files at that
time, and the files it leaves. -/
structure Outcome where
  result : Except NDRangeFailure Unit
  commands : List (CString × Files)
  files : Files

/-- `system`, with its result and the files it leaves. -/
abbrev System := CString → Files → Int × Files

/-- The part of the call after the checks. -/
def compile (install : Install) (system : System) (enqueue : Enqueue)
    (localSize offset : Sizes) (uninitialized : CString) (files : Files) : Outcome :=
  let tmpdir := snprintf filenameLength (enqueue.tmpdirName localSize offset)
  let kernelFilename := snprintf filenameLength enqueue.kernelFile
  let parallelFilename := snprintf filenameLength (parallelFile tmpdir)
  let kernel := enqueue.writeKernel kernelFilename files
  if kernel.1 = false then
    { result := .error .outOfHostMemory, commands := [], files := kernel.2 }
  else
    let command :=
      if kernel.2 parallelFilename = none then
        snprintf commandLength
          (enqueue.commandLine install localSize parallelFilename kernelFilename)
      else uninitialized
    let executed := system command kernel.2
    { result := if executed.1 = 0 then .ok () else .error .outOfResources
      commands := [(command, kernel.2)]
      files := executed.2 }

/-- `clEnqueueNDRangeKernel`.  A call that does not pass the checks leaves the files
as they are. -/
def run (install : Install) (system : System) (enqueue : Enqueue)
    (uninitialized : CString) (files : Files) : Outcome :=
  match clEnqueueNDRangeKernel enqueue.device { enqueue.range with building := .ok () } with
  | .error failure => { result := .error failure, commands := [], files := files }
  | .ok context =>
      compile install system enqueue context.localSize context.globalOffset uninitialized files

end Pocl.WorkGroupCompilation
