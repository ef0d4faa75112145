import Pocl.ArgumentAllocation
import Pocl.KernelArguments

/-!
# The arguments in a kernel object

A kernel object holds pointers to copies of the values that have been set.  `clSetKernelArg`
frees the copy that an argument has before it allocates another one.

A pointer is the number of a block that `pocl_aligned_malloc` has returned; a block that has
been freed has no contents, and its number is not used again.  A function has no result when
it frees such a block, reads or writes outside of an array, or writes through a null pointer.
-/

namespace Pocl.ArgumentStorage

open KernelArguments ArgumentAllocation

/-- `struct pocl_argument` -/
structure StoredArgument where
  size : SizeT
  value : Option ℕ
  deriving DecidableEq

/-- The entries of `dyn_arguments` for the arguments, with their kinds, and for the
automatic local variables. -/
structure KernelObject where
  args : List (ArgKinds × StoredArgument)
  locals : List StoredArgument
  /-- Whether `dyn_arguments` is not a null pointer. -/
  hasArguments : Bool
  hasSource : Bool
  deriving DecidableEq

def KernelObject.dynArguments (kernel : KernelObject) : List StoredArgument :=
  kernel.args.map Prod.snd ++ kernel.locals

structure State where
  kernel : KernelObject
  heap : ℕ → Option (List UInt8)
  nextBlock : ℕ

/-- How the library has been configured. -/
structure Build where
  hsaRuntime : Bool
  maxExtendedAlignment : SizeT
  allocator : Allocator

inductive ClCode
  | success
  | invalidKernel
  | invalidArgIndex
  | outOfHostMemory
  deriving DecidableEq

/-- The part of `clCreateKernel` that fills `dyn_arguments`.  An array without entries may be
a null pointer. -/
def clCreateKernel
    (kinds : List ArgKinds) (localSizes : List (BitVec 32)) (hasSource allocated : Bool) :
    Option State :=
  if allocated = true ∨ (kinds = [] ∧ localSizes = []) then
    some
      { kernel :=
          { args := kinds.map fun kinds => (kinds, ⟨0, none⟩)
            locals := localSizes.map fun size => ⟨size.setWidth 64, none⟩
            hasArguments := allocated
            hasSource := hasSource }
        heap := fun _ => none
        nextBlock := 0 }
  else
    none

namespace State

variable (state : State)

/-- `pocl_aligned_free`, which does nothing for a null pointer. -/
def free (value : Option ℕ) : Option State :=
  match value with
  | none => some state
  | some block =>
      if state.heap block = none then none
      else some { state with heap := Function.update state.heap block none }

def setArgument (index : ℕ) (kinds : ArgKinds) (argument : StoredArgument) : State :=
  { state with
    kernel := { state.kernel with args := state.kernel.args.set index (kinds, argument) } }

/-- A new block, which the argument points to. -/
def storeCopy (index : ℕ) (kinds : ArgKinds) (size : SizeT) (bytes : List UInt8) : State :=
  { state.setArgument index kinds ⟨size, some state.nextBlock⟩ with
    heap := Function.update state.heap state.nextBlock (some bytes)
    nextBlock := state.nextBlock + 1 }

end State

/-- Whether `pocl_aligned_malloc` returns a block for a copy of an argument. -/
def allocates (build : Build) (memory : HostMemory) (argSize : SizeT) : Bool :=
  (poclAlignedMalloc build.allocator memory
    (setKernelArgRequest build.maxExtendedAlignment argSize)).isSome

/-- Whether the kinds of an argument that is set to null are rewritten. -/
def retypes (build : Build) (kernel : KernelObject) : Bool :=
  build.hsaRuntime && !kernel.hasSource

/-- An index equal to the number of arguments is accepted.  It stands for the first
automatic local variable, but the arrays of the kinds have no entry for it. -/
def clSetKernelArg
    (build : Build) (memory : HostMemory) (state : State) (argIndex : ℕ) (argSize : SizeT)
    (argValue : Option (List UInt8)) : Option (ClCode × State) :=
  if state.kernel.args.length < argIndex then
    some (.invalidArgIndex, state)
  else if state.kernel.hasArguments = false then
    some (.invalidKernel, state)
  else
    match state.kernel.args[argIndex]? with
    | some (kinds, argument) => do
        let stores ← storesValue kinds argValue
        let freed ← state.free argument.value
        match stores, argValue with
        | true, some bytes =>
            if allocates build memory argSize = false then
              some (.outOfHostMemory, freed)
            else if bytes.length < argSize.toNat then
              none
            else
              some (.success, freed.storeCopy argIndex kinds argSize (bytes.take argSize.toNat))
        | _, _ =>
            some (.success, freed.setArgument argIndex
              (clearedKinds (retypes build state.kernel) kinds) ⟨argSize, none⟩)
    | none =>
        match state.kernel.locals, argValue with
        | first :: rest, none =>
            if retypes build state.kernel then
              none
            else do
              let freed ← state.free first.value
              some (.success,
                { freed with
                  kernel := { freed.kernel with locals := ⟨argSize, none⟩ :: rest } })
        | _, _ => none

/-- The kernel objects that calls of the client lead to, with the memory of the host that
each call finds. -/
inductive Reachable (build : Build) : State → Prop
  | create {kinds : List ArgKinds} {localSizes : List (BitVec 32)}
      {hasSource allocated : Bool} {state : State}
      (hcreate : clCreateKernel kinds localSizes hasSource allocated = some state) :
      Reachable build state
  | set {before after : State} {memory : HostMemory} {argIndex : ℕ} {argSize : SizeT}
      {argValue : Option (List UInt8)} {code : ClCode} (hbefore : Reachable build before)
      (hset : clSetKernelArg build memory before argIndex argSize argValue =
        some (code, after)) : Reachable build after

end Pocl.ArgumentStorage
