import Mathlib.Data.List.Forall2
import Mathlib.Tactic.Ring

/-!
# Programs created from binaries

`clCreateProgramWithBinary` checks its arguments and copies the binaries one after
the other into a single piece of memory.  `clGetProgramInfo` returns the devices of
the context, and the sizes and binaries of the program.

The memory of an array or of an allocation is a list; an access outside of it, or
through a null pointer, has no defined result.  The pointers to the binaries are
positions in the memory that holds them.
-/

namespace Pocl.ProgramBinaries

abbrev DeviceId := ℕ

inductive ClError
  | invalidValue
  | invalidContext
  | invalidDevice
  | outOfHostMemory
  deriving DecidableEq

inductive Failure
  | error (code : ClError)
  | undefined
  deriving DecidableEq

/-- The entries of `device_list`, `lengths` and `binaries` for one device. -/
structure BinaryEntry where
  device : DeviceId
  length : ℕ
  binary : Option (List UInt8)
  sized : ∀ bytes ∈ binary, bytes.length = length

structure Context where
  devices : List DeviceId
  deriving DecidableEq

structure Program where
  context : Context
  numDevices : ℕ
  devices : List DeviceId
  binarySizes : List ℕ
  memory : List UInt8
  binaries : List ℕ
  deriving DecidableEq

/-- Which of the allocations of a call succeed. -/
structure Mallocs where
  program : Bool
  binarySizes : Bool
  binaries : Bool
  memory : Bool
  devices : Bool

section Arrays

variable {τ : Type}

def readAt (array : List τ) (index : ℕ) : Except Failure τ :=
  match array[index]? with
  | some value => .ok value
  | none => .error .undefined

/-- `memcpy` to a position of the target. -/
def memcpy (target : List τ) (pos : ℕ) (source : List τ) : Except Failure (List τ) :=
  if pos + source.length ≤ target.length then
    .ok (target.take pos ++ source ++ target.drop (pos + source.length))
  else
    .error .undefined

/-- The source of a `memcpy`. -/
def readBytes (memory : List τ) (pos size : ℕ) : Except Failure (List τ) :=
  if pos + size ≤ memory.length then .ok ((memory.drop pos).take size)
  else .error .undefined

end Arrays

section Create

/-- The check of the lengths.  The total is an `unsigned`, and the index an `int`. -/
def totalBinarySize : ℕ → List BinaryEntry → ℕ → Except Failure ℕ
  | _, [], total => .ok total
  | i, entry :: entries, total =>
      if entry.length = 0 ∨ entry.binary = none then .error (.error .invalidValue)
      else if 2 ^ 31 ≤ i + 1 then .error .undefined
      else totalBinarySize (i + 1) entries ((total + entry.length) % 2 ^ 32)

/-- The search for a device of the list.  It compares with the device of the
context at the same index. -/
def findDevice (context : Context) (i : ℕ) (device : DeviceId) : Except Failure Bool :=
  context.devices.foldlM
    (fun found _ => do
      let other ← readAt context.devices i
      return found || other == device) false

def checkDevices (context : Context) : ℕ → List BinaryEntry → Except Failure Unit
  | _, [] => .ok ()
  | i, entry :: entries => do
      let found ← findDevice context i entry.device
      if found then checkDevices context (i + 1) entries
      else .error (.error .invalidDevice)

def checkDuplicates (context : Context) (entries : List BinaryEntry) :
    Except Failure Unit :=
  if context.devices.any
      (fun device => decide (1 < entries.countP (fun entry => device == entry.device))) then
    .error (.error .invalidDevice)
  else .ok ()

/-- The checks of the arguments, with the size of the memory for the binaries. -/
def checkArguments (context : Option Context) (entries : Option (List BinaryEntry)) :
    Except Failure (Context × List BinaryEntry × ℕ) :=
  match entries, context with
  | none, _ => .error (.error .invalidValue)
  | some [], _ => .error (.error .invalidValue)
  | some _, none => .error (.error .invalidContext)
  | some entries, some context => do
      let total ← totalBinarySize 0 entries 0
      checkDevices context 0 entries
      checkDuplicates context entries
      return (context, entries, total)

/-- The allocations of the call.  The clean-up after a failed one for the sizes or
the pointers reads through a null pointer, and the one for the devices is not
checked. -/
def allocate (mallocs : Mallocs) : Except Failure Unit :=
  if !mallocs.program then .error (.error .outOfHostMemory)
  else if !mallocs.binarySizes || !mallocs.binaries then .error .undefined
  else if !mallocs.memory then .error (.error .outOfHostMemory)
  else if !mallocs.devices then .error .undefined
  else .ok ()

def copyBinaries :
    List BinaryEntry → List UInt8 → ℕ → Except Failure (List UInt8 × List ℕ)
  | [], memory, _ => .ok (memory, [])
  | entry :: entries, memory, pos =>
      match entry.binary with
      | none => .error .undefined
      | some bytes => do
          let memory ← memcpy memory pos bytes
          let copied ← copyBinaries entries memory (pos + entry.length)
          return (copied.1, pos :: copied.2)

def clCreateProgramWithBinary (mallocs : Mallocs)
    (context : Option Context) (entries : Option (List BinaryEntry)) :
    Except Failure Program := do
  let checked ← checkArguments context entries
  allocate mallocs
  let copied ← copyBinaries checked.2.1 (List.replicate checked.2.2 0) 0
  return {
    context := checked.1
    numDevices := checked.2.1.length
    devices := checked.2.1.map BinaryEntry.device
    binarySizes := checked.2.1.map BinaryEntry.length
    memory := copied.1
    binaries := copied.2 }

end Create

section Queries

variable {τ : Type}

/-- The common part of the queries: the value is stored if there is a place for it,
and its size is returned. -/
def getInfo (valueSize paramValueSize : ℕ) (paramValue : Option (List τ))
    (store : List τ → Except Failure (List τ)) :
    Except Failure (Option (List τ) × ℕ) :=
  match paramValue with
  | none => .ok (none, valueSize)
  | some value =>
      if paramValueSize < valueSize then .error (.error .invalidValue)
      else do
        let value ← store value
        return (some value, valueSize)

/-- `CL_PROGRAM_BINARY_SIZES` -/
def programBinarySizes (program : Program)
    (paramValueSize : ℕ) (paramValue : Option (List ℕ)) :
    Except Failure (Option (List ℕ) × ℕ) :=
  getInfo (8 * program.numDevices) paramValueSize paramValue
    (fun value => memcpy value 0 program.binarySizes)

/-- `CL_PROGRAM_DEVICES` -/
def programDevices (program : Program)
    (paramValueSize : ℕ) (paramValue : Option (List DeviceId)) :
    Except Failure (Option (List DeviceId) × ℕ) :=
  getInfo (8 * program.numDevices) paramValueSize paramValue
    (fun value => do
      let devices ← (List.range program.numDevices).mapM (readAt program.context.devices)
      memcpy value 0 devices)

/-- The loop over the binaries, with the position and the size of each. -/
def storeBinaries (memory : List UInt8) :
    List (ℕ × ℕ) → List (Option (List UInt8)) → Except Failure (List (Option (List UInt8)))
  | [], targets => .ok targets
  | _ :: _, [] => .error .undefined
  | _ :: binaries, none :: targets => do
      let stored ← storeBinaries memory binaries targets
      return none :: stored
  | (pos, size) :: binaries, some target :: targets => do
      let bytes ← readBytes memory pos size
      let target ← memcpy target 0 bytes
      let stored ← storeBinaries memory binaries targets
      return some target :: stored

/-- `CL_PROGRAM_BINARIES` -/
def programBinaries (program : Program)
    (paramValueSize : ℕ) (paramValue : Option (List (Option (List UInt8)))) :
    Except Failure (Option (List (Option (List UInt8))) × ℕ) :=
  getInfo (8 * program.numDevices) paramValueSize paramValue
    (storeBinaries program.memory (program.binaries.zip program.binarySizes))

end Queries

end Pocl.ProgramBinaries
