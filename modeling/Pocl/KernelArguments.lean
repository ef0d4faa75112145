import Mathlib.Data.List.Basic
import Mathlib.Tactic.Ring

/-!
# Kernel arguments from `clSetKernelArg` to the device drivers

`clSetKernelArg` stores the arguments in the kernel object, and
`clEnqueueNDRangeKernel` copies them into the command.  When the command runs, the
driver reads the copies, but also the kinds of the arguments and, for some drivers,
the arguments that the kernel object holds by then.

What a driver passes for an argument is recorded symbolically: a buffer by the
handle and the index of `device_ptrs` that is read, a value by its bytes.  `none`
stands for an access outside of an array, through a null pointer, or for an abort.
Memory is taken to be available.
-/

namespace Pocl.KernelArguments

inductive Driver
  | basic
  | pthread
  | cellspu
  | ttasim
  | hsa
  deriving DecidableEq

/-- Whether `CL_DEVICE_TYPE_GPU` is in the type of the device. -/
def Driver.isGpu : Driver → Bool
  | .ttasim => true
  | .hsa => true
  | _ => false

structure Device where
  devId : ℕ
  data : ℕ
  driver : Driver
  deriving DecidableEq

/-- The devices of a context, in its order.  A device has its own `dev_id`, which is
its index among the devices of the platform, and its own data. -/
structure Context where
  numPlatformDevices : ℕ
  devices : List Device
  devId_lt : ∀ device ∈ devices, device.devId < numPlatformDevices
  devId_injective : ∀ first ∈ devices, ∀ second ∈ devices,
    first.devId = second.devId → first = second
  data_injective : ∀ first ∈ devices, ∀ second ∈ devices,
    first.data = second.data → first = second

/-- The kinds of an argument. -/
structure ArgKinds where
  isPointer : Bool
  isLocal : Bool
  isImage : Bool
  isSampler : Bool
  isStruct : Bool
  deriving DecidableEq

/-- `struct pocl_argument` -/
structure Argument where
  size : ℕ
  value : Option (List UInt8)
  deriving DecidableEq

/-- The entries of `dyn_arguments` for the arguments, with their kinds, and for the
automatic local variables after them. -/
structure Kernel where
  name : String
  groupSegmentSize : ℕ
  hasSource : Bool
  args : List (ArgKinds × Argument)
  locals : List Argument

section SetKernelArg

inductive ClCode
  | success
  | invalidArgIndex
  deriving DecidableEq

/-- Whether the given value is stored.  For a pointer the first `int` of the value
is read. -/
def storesValue (kinds : ArgKinds) : Option (List UInt8) → Option Bool
  | none => some false
  | some bytes =>
      if kinds.isPointer = false then some true
      else if bytes.length < 4 then none
      else some (!(bytes.take 4).all (fun byte => byte == 0))

/-- The kinds of an argument that is set to null, if the program has been created
from a binary. -/
def clearedKinds (retypes : Bool) (kinds : ArgKinds) : ArgKinds :=
  if retypes then { kinds with isPointer := true, isLocal := true } else kinds

def setArg (retypes : Bool) (arg : ArgKinds × Argument)
    (size : ℕ) (value : Option (List UInt8)) : Option (ArgKinds × Argument) :=
  match storesValue arg.1 value, value with
  | some true, some bytes =>
      if bytes.length < size then none
      else some (arg.1, { size := size, value := some (bytes.take size) })
  | some _, _ => some (clearedKinds retypes arg.1, { size := size, value := none })
  | none, _ => none

/-- The kinds are rewritten in a build with `HSA_RUNTIME`. -/
def Kernel.retypes (hsaRuntime : Bool) (kernel : Kernel) : Bool :=
  hsaRuntime && !kernel.hasSource

/-- An index equal to the number of arguments is accepted.  It stands for the first
automatic local variable, but the arrays of the kinds have no entry for it. -/
def clSetKernelArg (hsaRuntime : Bool) (kernel : Kernel)
    (index size : ℕ) (value : Option (List UInt8)) : Option (ClCode × Kernel) :=
  if kernel.args.length < index then some (.invalidArgIndex, kernel)
  else
    match kernel.args[index]?, kernel.locals, value with
    | some arg, _, _ =>
        (setArg (kernel.retypes hsaRuntime) arg size value).map
          (fun arg => (.success, { kernel with args := kernel.args.set index arg }))
    | none, _ :: rest, none =>
        if kernel.retypes hsaRuntime then none
        else some (.success, { kernel with locals := { size := size, value := none } :: rest })
    | none, _, _ => none

structure SetCall where
  index : ℕ
  size : ℕ
  value : Option (List UInt8)

def setKernelArgs (hsaRuntime : Bool) (kernel : Kernel) (calls : List SetCall) :
    Option Kernel :=
  calls.foldlM
    (fun kernel call =>
      (clSetKernelArg hsaRuntime kernel call.index call.size call.value).map Prod.snd) kernel

end SetKernelArg

section Launches

/-- What is passed for an argument. -/
inductive Passed
  | null
  | localMemory (size : ℕ)
  | localPointer (pointer : ℕ)
  | buffer (mem : List UInt8) (index : ℕ)
  | image (mem : List UInt8) (index : ℕ)
  | imageHandle (mem : List UInt8)
  | sampler
  | pointer (value : Option (List UInt8))
  | contents (bytes : List UInt8)
  deriving DecidableEq

structure Launch where
  passed : List Passed
  groupSegmentSize : ℕ
  deriving DecidableEq

/-- The arguments in a command. -/
structure Captured where
  args : List Argument
  locals : List Argument

/-- The copies that `clEnqueueNDRangeKernel` makes. -/
def Kernel.capture (kernel : Kernel) : Captured where
  args := kernel.args.map Prod.snd
  locals := kernel.locals

/-- An argument when the command runs: its kinds and what the kernel object holds by
then, and what has been captured. -/
structure LaunchArg where
  kinds : ArgKinds
  current : Argument
  captured : Argument

def launchArgs (kernel : Kernel) (captured : Captured) : List LaunchArg :=
  List.zipWith (fun arg captured => ⟨arg.1, arg.2, captured⟩) kernel.args captured.args

def passBuffer (index : ℕ) : Option (List UInt8) → Passed
  | none => .null
  | some mem => .buffer mem index

def passLocals (locals : List Argument) : List Passed :=
  locals.map (fun arg => .localMemory arg.size)

/-- The argument array of the basic and the pthread driver. -/
def passBasic (device : ℕ) (arg : LaunchArg) : Option Passed :=
  if arg.kinds.isLocal then some (.localMemory arg.captured.size)
  else if arg.kinds.isPointer then some (passBuffer device arg.captured.value)
  else if arg.kinds.isImage then arg.captured.value.map (fun mem => .image mem device)
  else if arg.kinds.isSampler then some .sampler
  else some (.pointer arg.captured.value)

/-- A `memcpy` of the value of an argument. -/
def copyValue (arg : Argument) : Option Passed :=
  match arg.value with
  | some bytes => some (.contents bytes)
  | none => if arg.size = 0 then some (.contents []) else none

def passTtasim (devId : ℕ) (arg : LaunchArg) : Option Passed :=
  if arg.kinds.isLocal then some (.localMemory arg.captured.size)
  else if arg.kinds.isPointer then some (passBuffer devId arg.captured.value)
  else copyValue arg.captured

/-- The cellspu driver reads the kernel object only. -/
def passCellspu (arg : LaunchArg) : Option Passed :=
  if arg.kinds.isLocal then some (.localMemory arg.current.size)
  else if arg.kinds.isPointer then some (passBuffer 0 arg.current.value)
  else if arg.kinds.isImage then none
  else if arg.kinds.isSampler then none
  else some (.pointer arg.current.value)

/-- An argument that is not local, in the general case of the HSA driver. -/
def passHsa (memIndex : ℕ) (arg : LaunchArg) : Option Passed :=
  if arg.kinds.isPointer then some (passBuffer memIndex arg.captured.value)
  else if arg.kinds.isImage then arg.captured.value.map .imageHandle
  else if arg.kinds.isStruct then some (.pointer arg.captured.value)
  else copyValue arg.captured

/-- The general case of the HSA driver, with the size that the local arguments add to
the group segment. -/
def passHsaArgs (memIndex : ℕ) : ℕ → List LaunchArg → Option (List Passed × ℕ)
  | _, [] => some ([], 0)
  | localPointer, arg :: args =>
      if arg.kinds.isLocal then do
        let rest ← passHsaArgs memIndex (localPointer + arg.captured.size) args
        return (.localPointer localPointer :: rest.1, arg.current.size + rest.2)
      else do
        let passed ← passHsa memIndex arg
        let rest ← passHsaArgs memIndex localPointer args
        return (passed :: rest.1, rest.2)

def passVegaValue (arg : LaunchArg) : Option Passed :=
  if arg.kinds.isStruct then some (.pointer arg.current.value)
  else copyValue arg.current

/-- The arguments of the kernel `calPriceVega` after the first one. -/
def passVegaArgs (memIndex : ℕ) : ℕ → List LaunchArg → Option (List Passed × ℕ)
  | _, [] => some ([], 0)
  | localPointer, arg :: args =>
      if arg.kinds.isPointer then
        match arg.current.value with
        | none => do
            let rest ← passVegaArgs memIndex (localPointer + 8) args
            return (.localPointer localPointer :: rest.1, arg.current.size + rest.2)
        | some mem => do
            let rest ← passVegaArgs memIndex localPointer args
            return (.buffer mem memIndex :: rest.1, rest.2)
      else do
        let passed ← passVegaValue arg
        let rest ← passVegaArgs memIndex localPointer args
        return (passed :: rest.1, rest.2)

def passVega (memIndex localPointer : ℕ) : List LaunchArg → Option (List Passed × ℕ)
  | [] => some ([], 0)
  | arg :: args => do
      let rest ← passVegaArgs memIndex localPointer args
      return (.pointer arg.current.value :: rest.1, rest.2)

/-- The argument buffer of the HSA driver. -/
def hsaPassed (memIndex : ℕ) (kernel : Kernel) (captured : Captured) :
    Option (List Passed × ℕ) :=
  if kernel.name = "calPriceVega" then
    passVega memIndex kernel.groupSegmentSize (launchArgs kernel captured)
  else
    passHsaArgs memIndex kernel.groupSegmentSize (launchArgs kernel captured)

/-- The HSA driver.  The size of the group segment is a 32-bit word. -/
def hsaRun (memIndex : ℕ) (kernel : Kernel) (captured : Captured) : Option Launch := do
  let passed ← hsaPassed memIndex kernel captured
  return {
    passed := passed.1
    groupSegmentSize := (kernel.groupSegmentSize + passed.2) % 2 ^ 32 }

def basicRun (device : ℕ) (kernel : Kernel) (captured : Captured) : Option Launch := do
  let passed ← (launchArgs kernel captured).mapM (passBasic device)
  return { passed := passed ++ passLocals captured.locals, groupSegmentSize := 0 }

def ttasimRun (devId : ℕ) (kernel : Kernel) (captured : Captured) : Option Launch := do
  let passed ← (launchArgs kernel captured).mapM (passTtasim devId)
  return { passed := passed ++ passLocals captured.locals, groupSegmentSize := 0 }

def cellspuRun (kernel : Kernel) (captured : Captured) : Option Launch := do
  let passed ← (launchArgs kernel captured).mapM passCellspu
  return { passed := passed ++ passLocals kernel.locals, groupSegmentSize := 0 }

/-- The device of the context that a driver finds for its data. -/
def findData (context : Context) (device : Device) : Option ℕ :=
  context.devices.findIdx? (fun other => other.data == device.data)

/-- The first GPU of the context. -/
def findGpu (context : Context) : Option Device :=
  context.devices.find? (fun other => other.driver.isGpu)

/-- The run of a command on a device of the context. -/
def run (context : Context) (device : Device) (kernel : Kernel) (captured : Captured) :
    Option Launch :=
  match device.driver with
  | .basic => (findData context device).bind (fun index => basicRun index kernel captured)
  | .pthread => (findData context device).bind (fun index => basicRun index kernel captured)
  | .cellspu => cellspuRun kernel captured
  | .ttasim => ttasimRun device.devId kernel captured
  | .hsa => (findGpu context).bind (fun gpu => hsaRun gpu.devId kernel captured)

end Launches

end Pocl.KernelArguments
