import Mathlib.Data.BitVec
import Mathlib.Data.List.FinRange
import Mathlib.Tactic

/-!
# The command slot of a TTA device

The host and the device share one `__kernel_exec_cmd`.  The host waits until the
slot is free, copies a command into it word by word, publishes it by writing
READY, waits for FINISHED, frees the slot again and then the chunks of the
command.  The device polls for READY, writes RUNNING, reads the command, runs
it and writes FINISHED.

Every step is one read or one write of a word, or no access at all.  The words
are those that the program of the device sees: both sides agree on the byte
order.  Of the metadata of a kernel only the number of its arguments matters.
-/

namespace Pocl

namespace TtaSlot

abbrev Word := BitVec 32

def maxKernelArgs : ℕ := 64

/-- There are three dimensions. -/
scoped instance neZeroDims : NeZero 3 :=
  ⟨by decide⟩

/-- The words of `__kernel_exec_cmd`. -/
inductive SlotWord
  | status
  | kernel
  | arg (i : Fin maxKernelArgs)
  | dynamicLocalArgSize (i : Fin maxKernelArgs)
  | workDim
  | numGroups (i : Fin 3)
  | globalOffset (i : Fin 3)
  deriving DecidableEq

/-- The words in the order of their addresses. -/
def slotWords : List SlotWord :=
  [.status, .kernel] ++ (List.finRange maxKernelArgs).map .arg ++
    (List.finRange maxKernelArgs).map .dynamicLocalArgSize ++ [.workDim] ++
    (List.finRange 3).map .numGroups ++ (List.finRange 3).map .globalOffset

def kstFree : Word := 1

def kstReady : Word := 2

def kstRunning : Word := 3

def kstFinished : Word := 4

/-- A program that reads words of the slot. -/
inductive Reads (α : Type)
  | done (result : α)
  | read (word : SlotWord) (next : Word → Reads α)

namespace Reads

def bind {α β : Type} (program : Reads α) (next : α → Reads β) : Reads β :=
  match program with
  | done result => next result
  | read word after => read word fun value => (after value).bind next

instance : Monad Reads where
  pure := done
  bind := bind

def word (address : SlotWord) : Reads Word :=
  read address done

/-- What a program returns when nobody writes the slot. -/
def run {α : Type} (slot : SlotWord → Word) : Reads α → α
  | done result => result
  | read address next => (next (slot address)).run slot

end Reads

/-- A call of `tta_opencl_wg_execute`: the arguments and the bounds of the loops
over the groups, with the context of the work-group function. -/
structure Launch where
  kernel : Word
  args : List Word
  lastGidX : Word
  numGroupsY : Word
  numGroupsZ : Word
  workDim : Word
  numGroups : Fin 3 → Word
  globalOffset : Fin 3 → Word

def readArgs : List (Fin maxKernelArgs) → Reads (List Word)
  | [] => pure []
  | i :: rest => do
      let arg ← Reads.word (.arg i)
      let args ← readArgs rest
      pure (arg :: args)

/-- The device from the return of `wait_for_command` to the first work-group.
`argCount` gives the arguments and automatic locals of the kernel at an address.
The bounds of the loops are tested with a read of `work_dim` each. -/
def wgLaunch (argCount : Word → Fin (maxKernelArgs + 1)) : Reads Launch := do
  let _nextKernel ← Reads.word .kernel
  let kernel ← Reads.word .kernel
  let numGroupsX ← Reads.word (.numGroups 0)
  let args ← readArgs ((List.finRange maxKernelArgs).take (argCount kernel))
  let kernel ← Reads.word .kernel
  let _numGroupsX ← Reads.word (.numGroups 0)
  let dim ← Reads.word .workDim
  let numGroupsY ←
    if 2 ≤ dim then Reads.word (.numGroups 1) else pure 1
  let dim ← Reads.word .workDim
  let numGroupsZ ←
    if dim = 3 then Reads.word (.numGroups 2) else pure 1
  let workDim ← Reads.word .workDim
  let groups0 ← Reads.word (.numGroups 0)
  let groups1 ← Reads.word (.numGroups 1)
  let groups2 ← Reads.word (.numGroups 2)
  let offset0 ← Reads.word (.globalOffset 0)
  let offset1 ← Reads.word (.globalOffset 1)
  let offset2 ← Reads.word (.globalOffset 2)
  pure
    { kernel := kernel
      args := args
      lastGidX := numGroupsX - 1
      numGroupsY := numGroupsY
      numGroupsZ := numGroupsZ
      workDim := workDim
      numGroups := ![groups0, groups1, groups2]
      globalOffset := ![offset0, offset1, offset2] }

/-- A command of the host: the words of `dev_cmd` other than its status, and the
chunks that are freed behind it. -/
structure Command where
  words : SlotWord → Word
  tempChunks : List ℕ

/-- `dev_cmd`. -/
def Command.devCmd (cmd : Command) (word : SlotWord) : Word :=
  if word = .status then kstFree else cmd.words word

/-- The accesses that leave a trace.  A chunk is freed for the command with the
given index. -/
inductive Action
  | hostWrite (word : SlotWord) (value : Word)
  | deviceWrite (word : SlotWord) (value : Word)
  | launched (launch : Launch)
  | freed (command chunk : ℕ)

/-- Where `pocl_tce_run` stands. -/
inductive HostPc
  | waitRoom
  | copy (left : List SlotWord)
  | waitFinished
  | release
  | freeChunks (left : List ℕ)

/-- Where the main program of the device stands. -/
inductive DevicePc
  | poll
  | claim
  | execute (program : Reads Launch)
  | finish

structure State where
  slot : SlotWord → Word
  host : HostPc
  /-- The index of the command that the host is at. -/
  current : ℕ
  device : DevicePc
  /-- The actions so far, the last one first. -/
  log : List Action

def State.initial (slot : SlotWord → Word) : State where
  slot := slot
  host := .waitRoom
  current := 0
  device := .poll
  log := []

namespace State

def hostWrite (state : State) (word : SlotWord) (value : Word) : State :=
  { state with
    slot := Function.update state.slot word value
    log := .hostWrite word value :: state.log }

def deviceWrite (state : State) (word : SlotWord) (value : Word) : State :=
  { state with
    slot := Function.update state.slot word value
    log := .deviceWrite word value :: state.log }

/-- One step of `pocl_tce_run`. -/
def hostStep (commands : List Command) (state : State) : State :=
  match commands[state.current]? with
  | none => state
  | some cmd =>
      match state.host with
      | .waitRoom =>
          if state.slot .status = kstFree then
            { state with host := .copy slotWords }
          else
            state
      | .copy (word :: left) =>
          { state.hostWrite word (cmd.devCmd word) with host := .copy left }
      | .copy [] =>
          { state.hostWrite .status kstReady with host := .waitFinished }
      | .waitFinished =>
          if state.slot .status = kstFinished then
            { state with host := .release }
          else
            state
      | .release =>
          { state.hostWrite .status kstFree with host := .freeChunks cmd.tempChunks }
      | .freeChunks (chunk :: left) =>
          { state with
            host := .freeChunks left
            log := .freed state.current chunk :: state.log }
      | .freeChunks [] =>
          { state with host := .waitRoom, current := state.current + 1 }

/-- One step of the main program of the device. -/
def deviceStep (argCount : Word → Fin (maxKernelArgs + 1)) (state : State) :
    State :=
  match state.device with
  | .poll =>
      if state.slot .status = kstReady then
        { state with device := .claim }
      else
        state
  | .claim =>
      { state.deviceWrite .status kstRunning with
        device := .execute (wgLaunch argCount) }
  | .execute (.read word next) =>
      { state with device := .execute (next (state.slot word)) }
  | .execute (.done launch) =>
      { state with device := .finish, log := .launched launch :: state.log }
  | .finish =>
      { state.deviceWrite .status kstFinished with device := .poll }

end State

inductive Agent
  | host
  | device
  deriving DecidableEq

section Runs

variable (argCount : Word → Fin (maxKernelArgs + 1)) (commands : List Command)

def step (agent : Agent) (state : State) : State :=
  match agent with
  | .host => state.hostStep commands
  | .device => state.deviceStep argCount

/-- The state after the agents have made their steps in the given order. -/
def runSchedule (schedule : List Agent) (state : State) : State :=
  schedule.foldl (fun state agent => step argCount commands agent state) state

end Runs

end TtaSlot

end Pocl
