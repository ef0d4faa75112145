import Pocl.LoopTraces
import Pocl.NDRangeTiling

/-!
# Distribution of work-groups

Three drivers call the work-group function for the groups of a context.  The
basic driver has a triple loop, the pthread driver cuts the first dimension into
ranges and gives one to each thread, and the TTA device runs a triple loop in
another order over a command whose words have 32 bits.

The counters of the basic driver are of type `size_t`, those of the pthread
driver and of the TTA device of type `unsigned`.  The only `int` operation that
can overflow is the last increment in the loop that creates the threads; its
result is not used, so that `int` is modelled by the integers.
-/

namespace Pocl

/-- `(int) size`. -/
def SizeT.toInt32 (size : SizeT) : ℤ :=
  (size.setWidth 32).toInt

namespace BasicDriver

/-- The calls of the work-group function by `pocl_basic_run`. -/
def run (fuel : ℕ) (pc : PoclContext) : Option (List (ℕ × ℕ × ℕ)) :=
  forLoop (fun z : SizeT => z < pc.numGroups.z)
    (fun z => forLoop (fun y : SizeT => y < pc.numGroups.y)
      (fun y => forLoop (fun x : SizeT => x < pc.numGroups.x)
        (fun x => some [(x.toNat, y.toNat, z.toNat)]) fuel 0) fuel 0) fuel 0

end BasicDriver

namespace PthreadDriver

def fallbackMaxThreadCount : ℤ := 8

structure Device where
  /-- The value of `POCL_MAX_PTHREAD_COUNT`, if it is set. -/
  maxPthreadCount : Option ℤ
  maxComputeUnits : ℤ

def getMaxThreadCount (device : Device) : ℤ :=
  match device.maxPthreadCount with
  | some count => count
  | none =>
      if device.maxComputeUnits = 0 then
        fallbackMaxThreadCount
      else
        device.maxComputeUnits

structure ThreadArguments where
  firstGidX : ℤ
  lastGidX : ℤ
  deriving DecidableEq

/-- The loop that creates the threads, with the number of threads that are
left. -/
def createThreads (wgsPerThread leftoverWgs : ℤ) :
    ℕ → ℤ → ℤ → List ThreadArguments
  | 0, _, _ => []
  | left + 1, firstGidX, lastGidX =>
      let lastGidX := if left = 0 then lastGidX + leftoverWgs else lastGidX
      ⟨firstGidX, lastGidX⟩ ::
        createThreads wgsPerThread leftoverWgs left
          (firstGidX + wgsPerThread) (lastGidX + wgsPerThread)

/-- The ranges that `pocl_pthread_run` hands to its threads. -/
def threadArguments (device : Device) (pc : PoclContext) : List ThreadArguments :=
  let numGroupsX := pc.numGroups.x.toInt32
  let maxThreads := getMaxThreadCount device
  let numThreads := min maxThreads numGroupsX
  let wgsPerThread := numGroupsX.tdiv numThreads
  let leftoverWgs := numGroupsX - numThreads * wgsPerThread
  createThreads wgsPerThread leftoverWgs numThreads.toNat 0 (wgsPerThread - 1)

/-- The calls of one thread.  The `unsigned` counters are compared with a
`size_t` in the outer loops, and with an `int` that is converted to `unsigned`
in the inner one. -/
def workgroupThread (fuel : ℕ) (pc : PoclContext) (ta : ThreadArguments) :
    Option (List (ℕ × ℕ × ℕ)) :=
  forLoop (fun z : BitVec 32 => z.toNat < pc.numGroups.z.toNat)
    (fun z => forLoop (fun y : BitVec 32 => y.toNat < pc.numGroups.y.toNat)
      (fun y => forLoop (fun x : BitVec 32 => x ≤ BitVec.ofInt 32 ta.lastGidX)
        (fun x => some [(x.toNat, y.toNat, z.toNat)]) fuel
          (BitVec.ofInt 32 ta.firstGidX)) fuel 0) fuel 0

/-- The calls of all threads. -/
def run (fuel : ℕ) (device : Device) (pc : PoclContext) :
    Option (List (List (ℕ × ℕ × ℕ))) :=
  (threadArguments device pc).mapM (workgroupThread fuel pc)

end PthreadDriver

namespace TtaDevice

/-- The words of the command that the host writes for a context. -/
structure Command where
  workDim : BitVec 32
  numGroupsX : BitVec 32
  numGroupsY : BitVec 32
  numGroupsZ : BitVec 32

def commandOf (pc : PoclContext) : Command where
  workDim := BitVec.ofNat 32 pc.workDim
  numGroupsX := pc.numGroups.x.setWidth 32
  numGroupsY := pc.numGroups.y.setWidth 32
  numGroupsZ := pc.numGroups.z.setWidth 32

/-- `tta_opencl_wg_execute`: all bounds are `int`s that the comparisons convert
back to `unsigned`. -/
def wgExecute (fuel : ℕ) (cmd : Command) (firstGidx lastGidx : BitVec 32) :
    Option (List (ℕ × ℕ × ℕ)) :=
  let numGroupsY := if 2 ≤ cmd.workDim.toNat then cmd.numGroupsY else 1
  let numGroupsZ := if cmd.workDim.toNat = 3 then cmd.numGroupsZ else 1
  forLoop (fun x : BitVec 32 => x ≤ lastGidx)
    (fun x => forLoop (fun y : BitVec 32 => y < numGroupsY)
      (fun y => forLoop (fun z : BitVec 32 => z < numGroupsZ)
        (fun z => some [(x.toNat, y.toNat, z.toNat)]) fuel 0) fuel 0) fuel
          firstGidx

def wgLaunch (fuel : ℕ) (cmd : Command) : Option (List (ℕ × ℕ × ℕ)) :=
  wgExecute fuel cmd 0 (cmd.numGroupsX - 1)

/-- The calls of the work-group function on the device. -/
def run (fuel : ℕ) (pc : PoclContext) : Option (List (ℕ × ℕ × ℕ)) :=
  wgLaunch fuel (commandOf pc)

end TtaDevice

/-- The contexts that the drivers get: every dimension has a group, and the
dimensions that are not used have one. -/
structure PoclContext.WellFormed (pc : PoclContext) : Prop where
  workDim_pos : 1 ≤ pc.workDim
  workDim_le : pc.workDim ≤ 3
  x_pos : 0 < pc.numGroups.x.toNat
  y_pos : 0 < pc.numGroups.y.toNat
  z_pos : 0 < pc.numGroups.z.toNat
  y_unused : pc.workDim < 2 → pc.numGroups.y = 1
  z_unused : pc.workDim < 3 → pc.numGroups.z = 1

theorem localSize_y
    {device : NDRangeDevice} {call : NDRangeCall} (hunused : ¬1 < call.workDim) :
    (localSize device call).y = 1 := by
  unfold localSize
  cases call.localWorkSize with
  | some given => simp [NDRangeCall.sizes, hunused]
  | none =>
      cases preferredMultiple device call with
      | some multiple => rfl
      | none => rfl

theorem localSize_z
    {device : NDRangeDevice} {call : NDRangeCall} (hunused : ¬2 < call.workDim) :
    (localSize device call).z = 1 := by
  unfold localSize
  cases call.localWorkSize with
  | some given => simp [NDRangeCall.sizes, hunused]
  | none =>
      cases preferredMultiple device call with
      | some multiple => rfl
      | none => rfl

/-- The drivers get such contexts from `clEnqueueNDRangeKernel`. -/
theorem Launches.wellFormed
    {device : NDRangeDevice} {call : NDRangeCall} {pc : PoclContext}
    (hlaunch : Launches device call pc) : pc.WellFormed := by
  have hone : ∀ {size localSize groups : SizeT},
      Axis size localSize groups → size = 1 → localSize = 1 → groups = 1 := by
    rintro size localSize groups haxis rfl rfl
    refine BitVec.eq_of_toNat_eq ?_
    have hmul := haxis.mul_eq
    simpa using hmul
  refine
    { workDim_pos := hlaunch.workDim_eq ▸ hlaunch.workDim_pos
      workDim_le := hlaunch.workDim_eq ▸ hlaunch.workDim_le
      x_pos := hlaunch.axis_x.groups_pos
      y_pos := hlaunch.axis_y.groups_pos
      z_pos := hlaunch.axis_z.groups_pos
      y_unused := fun hdim => hone hlaunch.axis_y ?_ ?_
      z_unused := fun hdim => hone hlaunch.axis_z ?_ ?_ }
  · have hunused : ¬1 < call.workDim := by
      rw [← hlaunch.workDim_eq]
      omega
    simp [NDRangeCall.globalSize, NDRangeCall.sizes, hunused]
  · rw [hlaunch.localSize_eq]
    exact localSize_y (by rw [← hlaunch.workDim_eq]; omega)
  · have hunused : ¬2 < call.workDim := by
      rw [← hlaunch.workDim_eq]
      omega
    simp [NDRangeCall.globalSize, NDRangeCall.sizes, hunused]
  · rw [hlaunch.localSize_eq]
    exact localSize_z (by rw [← hlaunch.workDim_eq]; omega)

def PoclContext.InGrid (pc : PoclContext) (group : ℕ × ℕ × ℕ) : Prop :=
  group.1 < pc.numGroups.x.toNat ∧ group.2.1 < pc.numGroups.y.toNat ∧
    group.2.2 < pc.numGroups.z.toNat

instance (pc : PoclContext) (group : ℕ × ℕ × ℕ) : Decidable (pc.InGrid group) :=
  inferInstanceAs (Decidable (_ ∧ _ ∧ _))

namespace PthreadDriver

def ThreadArguments.Covers (ta : ThreadArguments) (gid : ℤ) : Prop :=
  ta.firstGidX ≤ gid ∧ gid ≤ ta.lastGidX

/-- The threads partition the groups of the first dimension, they all end, and
in whatever order they run the groups are called as by the other two drivers. -/
structure DistributesExactly (device : Device) (pc : PoclContext) : Prop where
  disjoint : (threadArguments device pc).Pairwise fun a b =>
    ∀ gid, ¬(a.Covers gid ∧ b.Covers gid)
  cover : ∀ gid, (∃ ta ∈ threadArguments device pc, ta.Covers gid) ↔
    0 ≤ gid ∧ gid < pc.numGroups.x.toNat
  calls : ∃ fuel threads basic tta,
    run fuel device pc = some threads ∧
      BasicDriver.run fuel pc = some basic ∧
      TtaDevice.run fuel pc = some tta ∧
      ∀ trace, Interleaving threads trace →
        (∀ group, trace.count group = if pc.InGrid group then 1 else 0) ∧
          trace.Perm basic ∧ trace.Perm tta

/-- The group ids of a range. -/
def ThreadArguments.groups (ta : ThreadArguments) : List ℕ :=
  List.range' ta.firstGidX.toNat (ta.lastGidX + 1 - ta.firstGidX).toNat

/-- Ranges that fit in an `int`. -/
structure ThreadArguments.Bounded (ta : ThreadArguments) : Prop where
  first_nonneg : 0 ≤ ta.firstGidX
  first_le : ta.firstGidX ≤ ta.lastGidX
  last_lt : ta.lastGidX < 2 ^ 31

theorem ThreadArguments.Bounded.mem_groups
    {ta : ThreadArguments} (hta : ta.Bounded) {gid : ℕ} :
    gid ∈ ta.groups ↔ ta.Covers gid := by
  have hfirst := hta.first_nonneg
  have hle := hta.first_le
  rw [groups, List.mem_range'_1, Covers]
  omega

/-- What the loop that creates the threads hands out from a group on. -/
theorem createThreads_spec
    {wgsPerThread : ℕ} (hwgs : 0 < wgsPerThread) (leftoverWgs left : ℕ) :
    ∀ first : ℕ,
      first + (left + 1) * wgsPerThread + leftoverWgs ≤ 2 ^ 31 →
      (createThreads wgsPerThread leftoverWgs (left + 1) first
          (first + wgsPerThread - 1)).flatMap ThreadArguments.groups =
        List.range' first ((left + 1) * wgsPerThread + leftoverWgs) ∧
      ∀ ta ∈ createThreads wgsPerThread leftoverWgs (left + 1) first
        (first + wgsPerThread - 1), ta.Bounded := by
  induction left with
  | zero =>
      intro first hbound
      have hlist : createThreads wgsPerThread leftoverWgs 1 first
          (first + wgsPerThread - 1) =
            [⟨first, first + wgsPerThread - 1 + leftoverWgs⟩] := by
        simp [createThreads]
      rw [Nat.zero_add] at hbound ⊢
      rw [hlist]
      constructor
      · rw [List.flatMap_singleton, ThreadArguments.groups]
        simp only
        congr 1
        omega
      · intro ta hta
        rw [List.mem_singleton.mp hta]
        constructor <;> simp only <;> omega
  | succ left ih =>
      intro first hbound
      have hsplit : (left + 1 + 1) * wgsPerThread =
          wgsPerThread + (left + 1) * wgsPerThread := by ring
      have hlist : createThreads wgsPerThread leftoverWgs (left + 1 + 1) first
          (first + wgsPerThread - 1) =
            ⟨first, first + wgsPerThread - 1⟩ ::
              createThreads wgsPerThread leftoverWgs (left + 1)
                ((first + wgsPerThread : ℕ) : ℤ)
                ((first + wgsPerThread : ℕ) + wgsPerThread - 1) := by
        rw [createThreads, if_neg (Nat.succ_ne_zero left)]
        have hnext : ((first + wgsPerThread : ℕ) : ℤ) + wgsPerThread - 1 =
            first + wgsPerThread - 1 + wgsPerThread := by
          push_cast
          ring
        rw [hnext]
        push_cast
        rfl
      obtain ⟨hgroups, hta⟩ := ih (first + wgsPerThread) (by omega)
      rw [hlist]
      constructor
      · have hfirst : ThreadArguments.groups ⟨first, first + wgsPerThread - 1⟩ =
            List.range' first wgsPerThread := by
          rw [ThreadArguments.groups]
          simp only
          congr 1
          omega
        rw [List.flatMap_cons, hfirst, hgroups, hsplit, Nat.add_assoc,
          List.range'_append_1]
      · intro ta hmem
        rcases List.mem_cons.mp hmem with rfl | hmem
        · constructor <;> simp only <;> omega
        · exact hta ta hmem

section Partition

variable {device : Device} {pc : PoclContext}

theorem toInt32_of_lt {size : SizeT} (hlt : size.toNat < 2 ^ 31) :
    size.toInt32 = size.toNat := by
  rw [SizeT.toInt32, BitVec.toInt_eq_toNat_of_lt]
  · rw [BitVec.toNat_setWidth, Nat.mod_eq_of_lt (by omega)]
  · rw [BitVec.toNat_setWidth, Nat.mod_eq_of_lt (by omega)]
    omega

theorem threadArguments_spec
    (hlimit : 0 < getMaxThreadCount device)
    (hpos : 0 < pc.numGroups.x.toNat) (hlt : pc.numGroups.x.toNat < 2 ^ 31) :
    (threadArguments device pc).flatMap ThreadArguments.groups =
        List.range pc.numGroups.x.toNat ∧
      ∀ ta ∈ threadArguments device pc, ta.Bounded := by
  obtain ⟨limit, hlimitEq⟩ := Int.eq_ofNat_of_zero_le hlimit.le
  set count := pc.numGroups.x.toNat with hcount
  obtain ⟨left, hleft⟩ : ∃ left, min limit count = left + 1 :=
    Nat.exists_eq_add_one_of_ne_zero (by omega)
  have hthreads : min (getMaxThreadCount device) pc.numGroups.x.toInt32 =
      ((left + 1 : ℕ) : ℤ) := by
    rw [hlimitEq, toInt32_of_lt hlt, ← hcount, ← hleft]
    push_cast
    rfl
  have hwgs : 0 < count / (left + 1) := Nat.div_pos (by omega) (Nat.succ_pos left)
  have hsum : (left + 1) * (count / (left + 1)) + count % (left + 1) = count :=
    Nat.div_add_mod count (left + 1)
  have hleftover : (count : ℤ) - ((left + 1 : ℕ) : ℤ) * ((count / (left + 1) : ℕ) : ℤ) =
      ((count % (left + 1) : ℕ) : ℤ) := by
    rw [← Nat.cast_mul]
    omega
  have harguments : threadArguments device pc =
      createThreads (count / (left + 1) : ℕ) (count % (left + 1) : ℕ) (left + 1)
        ((0 : ℕ) : ℤ) ((0 : ℕ) + (count / (left + 1) : ℕ) - 1) := by
    unfold threadArguments
    simp only
    rw [hthreads, toInt32_of_lt hlt, ← hcount, Int.toNat_natCast,
      ← Int.ofNat_tdiv, hleftover, Nat.cast_zero, Int.zero_add]
  have hspec := createThreads_spec hwgs (count % (left + 1)) left 0 (by omega)
  rw [← harguments, hsum] at hspec
  rw [List.range_eq_range']
  exact hspec

theorem ranges_disjoint
    (hgroups : (threadArguments device pc).flatMap ThreadArguments.groups =
      List.range pc.numGroups.x.toNat)
    (hbounded : ∀ ta ∈ threadArguments device pc, ta.Bounded) :
    (threadArguments device pc).Pairwise fun a b =>
      ∀ gid, ¬(a.Covers gid ∧ b.Covers gid) := by
  have hnodup : ((threadArguments device pc).flatMap
      ThreadArguments.groups).Nodup := by
    rw [hgroups]
    exact List.nodup_range
  refine (List.nodup_flatMap.mp hnodup).2.imp_of_mem ?_
  intro a b ha hb hdisjoint gid hcovers
  obtain ⟨gid, rfl⟩ := Int.eq_ofNat_of_zero_le
    ((hbounded a ha).first_nonneg.trans hcovers.1.1)
  exact hdisjoint ((hbounded a ha).mem_groups.mpr hcovers.1)
    ((hbounded b hb).mem_groups.mpr hcovers.2)

theorem ranges_cover
    (hgroups : (threadArguments device pc).flatMap ThreadArguments.groups =
      List.range pc.numGroups.x.toNat)
    (hbounded : ∀ ta ∈ threadArguments device pc, ta.Bounded) (gid : ℤ) :
    (∃ ta ∈ threadArguments device pc, ta.Covers gid) ↔
      0 ≤ gid ∧ gid < pc.numGroups.x.toNat := by
  constructor
  · rintro ⟨ta, hta, hcovers⟩
    obtain ⟨gid, rfl⟩ := Int.eq_ofNat_of_zero_le
      ((hbounded ta hta).first_nonneg.trans hcovers.1)
    have hmem : gid ∈ List.range pc.numGroups.x.toNat := by
      rw [← hgroups]
      exact List.mem_flatMap.mpr ⟨ta, hta, (hbounded ta hta).mem_groups.mpr hcovers⟩
    exact ⟨Int.natCast_nonneg gid, Int.ofNat_lt.mpr (List.mem_range.mp hmem)⟩
  · rintro ⟨hnonneg, hlt⟩
    obtain ⟨gid, rfl⟩ := Int.eq_ofNat_of_zero_le hnonneg
    have hmem : gid ∈ List.range pc.numGroups.x.toNat :=
      List.mem_range.mpr (Int.ofNat_lt.mp hlt)
    rw [← hgroups] at hmem
    obtain ⟨ta, hta, hgid⟩ := List.mem_flatMap.mp hmem
    exact ⟨ta, hta, (hbounded ta hta).mem_groups.mp hgid⟩

end Partition

section Calls

variable {pc : PoclContext} {fuel : ℕ}

/-- The fuel that lets every loop of the three drivers end. -/
def enoughFuel (pc : PoclContext) : ℕ :=
  pc.numGroups.x.toNat + pc.numGroups.y.toNat + pc.numGroups.z.toNat + 1

theorem basicRun_eq (hfuel : enoughFuel pc ≤ fuel) :
    BasicDriver.run fuel pc =
      some (triples (List.range pc.numGroups.x.toNat)
        (List.range pc.numGroups.y.toNat) (List.range pc.numGroups.z.toNat)) := by
  unfold enoughFuel at hfuel
  unfold BasicDriver.run
  refine (forLoop_nested pc.numGroups.z.isLt pc.numGroups.y.isLt pc.numGroups.x.isLt
    (fun z => rfl) (fun y => rfl) (fun x => rfl) (Nat.zero_le _) (by omega)
    (by omega) (by omega) (fun z y x => (x, y, z))).trans ?_
  simp only [triples, List.range_eq_range', BitVec.ofNat_eq_ofNat, BitVec.toNat_zero,
    Nat.sub_zero]

theorem ttaRun_eq
    (hpc : pc.WellFormed) (hx : pc.numGroups.x.toNat < 2 ^ 31)
    (hy : pc.numGroups.y.toNat < 2 ^ 32) (hz : pc.numGroups.z.toNat < 2 ^ 32)
    (hfuel : enoughFuel pc ≤ fuel) :
    TtaDevice.run fuel pc =
      some ((List.range pc.numGroups.x.toNat).flatMap fun x =>
        (List.range pc.numGroups.y.toNat).flatMap fun y =>
          (List.range pc.numGroups.z.toNat).map fun z => (x, y, z)) := by
  unfold enoughFuel at hfuel
  have hdim : (BitVec.ofNat 32 pc.workDim).toNat = pc.workDim := by
    rw [BitVec.toNat_ofNat]
    have hle := hpc.workDim_le
    exact Nat.mod_eq_of_lt (by omega)
  have hgroupsY : (if 2 ≤ (BitVec.ofNat 32 pc.workDim).toNat then
      pc.numGroups.y.setWidth 32 else 1).toNat = pc.numGroups.y.toNat := by
    rw [hdim]
    by_cases hused : 2 ≤ pc.workDim
    · rw [if_pos hused, BitVec.toNat_setWidth, Nat.mod_eq_of_lt hy]
    · rw [if_neg hused, hpc.y_unused (by omega)]
      rfl
  have hgroupsZ : (if (BitVec.ofNat 32 pc.workDim).toNat = 3 then
      pc.numGroups.z.setWidth 32 else 1).toNat = pc.numGroups.z.toNat := by
    rw [hdim]
    by_cases hused : pc.workDim = 3
    · rw [if_pos hused, BitVec.toNat_setWidth, Nat.mod_eq_of_lt hz]
    · have hle := hpc.workDim_le
      rw [if_neg hused, hpc.z_unused (by omega)]
      rfl
  have hlast : (pc.numGroups.x.setWidth 32 - 1).toNat =
      pc.numGroups.x.toNat - 1 := by
    have hpos := hpc.x_pos
    have hwidth : (pc.numGroups.x.setWidth 32).toNat = pc.numGroups.x.toNat := by
      rw [BitVec.toNat_setWidth]
      exact Nat.mod_eq_of_lt (by omega)
    rw [BitVec.toNat_sub_of_le, hwidth]
    · rfl
    · rw [BitVec.le_def, hwidth]
      exact hpos
  have hpos := hpc.x_pos
  unfold TtaDevice.run TtaDevice.wgLaunch TtaDevice.wgExecute TtaDevice.commandOf
  refine (forLoop_nested (show pc.numGroups.x.toNat < 2 ^ 32 by omega) hy hz
    (fun x => ?_) (fun y => ?_) (fun z => ?_) (Nat.zero_le _) (by omega)
    (by omega) (by omega) (fun x y z => (x, y, z))).trans ?_
  · refine decide_eq_decide.mpr ?_
    rw [BitVec.le_def, hlast]
    omega
  · refine decide_eq_decide.mpr ?_
    rw [BitVec.lt_def, hgroupsY]
  · refine decide_eq_decide.mpr ?_
    rw [BitVec.lt_def, hgroupsZ]
  · simp only [List.range_eq_range', BitVec.ofNat_eq_ofNat, BitVec.toNat_zero,
      Nat.sub_zero]

theorem workgroupThread_eq
    {ta : ThreadArguments} (hta : ta.Bounded)
    (hx : ta.lastGidX < pc.numGroups.x.toNat)
    (hy : pc.numGroups.y.toNat < 2 ^ 32) (hz : pc.numGroups.z.toNat < 2 ^ 32)
    (hfuel : enoughFuel pc ≤ fuel) :
    workgroupThread fuel pc ta =
      some (triples ta.groups (List.range pc.numGroups.y.toNat)
        (List.range pc.numGroups.z.toNat)) := by
  unfold enoughFuel at hfuel
  obtain ⟨hnonneg, hle, hlt⟩ := hta
  obtain ⟨first, hfirst⟩ := Int.eq_ofNat_of_zero_le hnonneg
  obtain ⟨last, hlast⟩ := Int.eq_ofNat_of_zero_le (hnonneg.trans hle)
  have hfirstNat : (BitVec.ofInt 32 ta.firstGidX).toNat = first := by
    rw [hfirst, BitVec.ofInt_natCast, BitVec.toNat_ofNat]
    exact Nat.mod_eq_of_lt (by omega)
  have hlastNat : (BitVec.ofInt 32 ta.lastGidX).toNat = last := by
    rw [hlast, BitVec.ofInt_natCast, BitVec.toNat_ofNat]
    exact Nat.mod_eq_of_lt (by omega)
  unfold workgroupThread
  refine (forLoop_nested hz hy (show last + 1 < 2 ^ 32 by omega) (fun z => rfl)
    (fun y => rfl) (fun x => ?_) (by omega) (by omega) (by omega) (by omega)
    (fun z y x => (x, y, z))).trans ?_
  · refine decide_eq_decide.mpr ?_
    rw [BitVec.le_def, hlastNat]
    omega
  · have hgroups : ta.groups = List.range' first (last + 1 - first) := by
      rw [ThreadArguments.groups, hfirst, hlast]
      congr 1
      omega
    rw [hfirstNat, hgroups]
    rfl

variable {device : Device}

theorem run_eq
    (hbounded : ∀ ta ∈ threadArguments device pc, ta.Bounded)
    (hlast : ∀ ta ∈ threadArguments device pc,
      ta.lastGidX < pc.numGroups.x.toNat)
    (hy : pc.numGroups.y.toNat < 2 ^ 32) (hz : pc.numGroups.z.toNat < 2 ^ 32)
    (hfuel : enoughFuel pc ≤ fuel) :
    run fuel device pc =
      some ((threadArguments device pc).map fun ta =>
        triples ta.groups (List.range pc.numGroups.y.toNat)
          (List.range pc.numGroups.z.toNat)) := by
  unfold run
  revert hbounded hlast
  induction threadArguments device pc with
  | nil =>
      intro _ _
      rfl
  | cons ta tas ih =>
      intro hbounded hlast
      have hhead := workgroupThread_eq (hbounded ta List.mem_cons_self)
        (hlast ta List.mem_cons_self) hy hz hfuel
      have htail := ih (fun ta hta => hbounded ta (List.mem_cons_of_mem _ hta))
        (fun ta hta => hlast ta (List.mem_cons_of_mem _ hta))
      rw [List.mapM_cons, hhead, htail]
      rfl

theorem workgroupThread_diverges
    (hpc : pc.WellFormed)
    (hwide : ¬(pc.numGroups.y.toNat < 2 ^ 32 ∧ pc.numGroups.z.toNat < 2 ^ 32))
    (fuel : ℕ) (ta : ThreadArguments) : workgroupThread fuel pc ta = none := by
  unfold workgroupThread
  have hpos := hpc.z_pos
  by_cases hz : pc.numGroups.z.toNat < 2 ^ 32
  · have hy : ¬pc.numGroups.y.toNat < 2 ^ 32 := fun hy => hwide ⟨hy, hz⟩
    refine forLoop_none_of_body (decide_eq_true hpos) ?_ fuel
    refine forLoop_diverges (fun y => decide_eq_true ?_) fuel 0
    have hlt := y.isLt
    omega
  · refine forLoop_diverges (fun z => decide_eq_true ?_) fuel 0
    have hlt := z.isLt
    omega

theorem run_diverges
    (hpc : pc.WellFormed)
    (hwide : ¬(pc.numGroups.y.toNat < 2 ^ 32 ∧ pc.numGroups.z.toNat < 2 ^ 32))
    {ta : ThreadArguments} (hta : ta ∈ threadArguments device pc) (fuel : ℕ) :
    run fuel device pc = none := by
  unfold run
  obtain ⟨first, rest, hlist⟩ :=
    List.exists_cons_of_ne_nil (List.ne_nil_of_mem hta)
  rw [hlist, List.mapM_cons, workgroupThread_diverges hpc hwide]
  rfl

theorem mem_threadCalls
    (hgroups : (threadArguments device pc).flatMap ThreadArguments.groups =
      List.range pc.numGroups.x.toNat) (group : ℕ × ℕ × ℕ) :
    group ∈ (threadArguments device pc).flatMap (fun ta =>
        triples ta.groups (List.range pc.numGroups.y.toNat)
          (List.range pc.numGroups.z.toNat)) ↔
      pc.InGrid group := by
  have hx := List.mem_range (m := group.1) (n := pc.numGroups.x.toNat)
  rw [← hgroups, List.mem_flatMap] at hx
  rw [PoclContext.InGrid, ← hx]
  simp only [List.mem_flatMap, mem_triples, List.mem_range]
  constructor
  · rintro ⟨ta, hta, hgid, hy, hz⟩
    exact ⟨⟨ta, hta, hgid⟩, hy, hz⟩
  · rintro ⟨⟨ta, hta, hgid⟩, hy, hz⟩
    exact ⟨ta, hta, hgid, hy, hz⟩

theorem nodup_threadCalls
    (hgroups : (threadArguments device pc).flatMap ThreadArguments.groups =
      List.range pc.numGroups.x.toNat) :
    ((threadArguments device pc).flatMap fun ta =>
      triples ta.groups (List.range pc.numGroups.y.toNat)
        (List.range pc.numGroups.z.toNat)).Nodup := by
  have hnodup : ((threadArguments device pc).flatMap
      ThreadArguments.groups).Nodup := by
    rw [hgroups]
    exact List.nodup_range
  obtain ⟨hself, hdisjoint⟩ := List.nodup_flatMap.mp hnodup
  refine List.nodup_flatMap.mpr ⟨fun ta hta => ?_, hdisjoint.imp ?_⟩
  · exact nodup_triples (hself ta hta) List.nodup_range List.nodup_range
  · intro a b hab group hgroup hgroup'
    exact hab (mem_triples.mp hgroup).1 (mem_triples.mp hgroup').1

theorem perm_of_nodup
    (hgroups : (threadArguments device pc).flatMap ThreadArguments.groups =
      List.range pc.numGroups.x.toNat)
    {calls : List (ℕ × ℕ × ℕ)} (hnodup : calls.Nodup)
    (hmem : ∀ group, group ∈ calls ↔ pc.InGrid group) :
    ((threadArguments device pc).flatMap fun ta =>
      triples ta.groups (List.range pc.numGroups.y.toNat)
        (List.range pc.numGroups.z.toNat)).Perm calls := by
  rw [List.perm_ext_iff_of_nodup (nodup_threadCalls hgroups) hnodup]
  intro group
  rw [mem_threadCalls hgroups, hmem]

end Calls

/-- The work-groups are distributed exactly if and only if the numbers of groups
in the second and the third dimension fit in an `unsigned`. -/
theorem distributesExactly_iff
    {device : Device} {pc : PoclContext} (hpc : pc.WellFormed)
    (hlimit : 0 < getMaxThreadCount device) (hx : pc.numGroups.x.toNat < 2 ^ 31) :
    DistributesExactly device pc ↔
      pc.numGroups.y.toNat < 2 ^ 32 ∧ pc.numGroups.z.toNat < 2 ^ 32 := by
  obtain ⟨hgroups, hbounded⟩ := threadArguments_spec hlimit hpc.x_pos hx
  constructor
  · intro hexact
    by_contra hwide
    obtain ⟨ta, hta, -⟩ := (hexact.cover 0).mpr
      ⟨le_rfl, Int.natCast_pos.mpr hpc.x_pos⟩
    obtain ⟨fuel, threads, _, _, hrun, _⟩ := hexact.calls
    rw [run_diverges hpc hwide hta] at hrun
    cases hrun
  · rintro ⟨hy, hz⟩
    have hcover := ranges_cover hgroups hbounded
    have hlast : ∀ ta ∈ threadArguments device pc,
        ta.lastGidX < pc.numGroups.x.toNat := by
      intro ta hta
      exact ((hcover ta.lastGidX).mp ⟨ta, hta, (hbounded ta hta).first_le, le_rfl⟩).2
    refine
      { disjoint := ranges_disjoint hgroups hbounded
        cover := hcover
        calls := ⟨enoughFuel pc, _, _, _, run_eq hbounded hlast hy hz le_rfl,
          basicRun_eq le_rfl, ttaRun_eq hpc hx hy hz le_rfl, ?_⟩ }
    intro trace htrace
    have hperm := htrace.perm
    rw [← List.flatMap_def] at hperm
    refine ⟨fun group => ?_, hperm.trans ?_, hperm.trans ?_⟩
    · rw [hperm.count_eq, (nodup_threadCalls hgroups).count]
      simp only [mem_threadCalls hgroups]
    · refine perm_of_nodup hgroups
        (nodup_triples List.nodup_range List.nodup_range List.nodup_range)
        fun group => ?_
      simp only [mem_triples, List.mem_range, PoclContext.InGrid]
    · rw [← map_reverse_triples]
      refine perm_of_nodup hgroups (List.Nodup.map ?_
        (nodup_triples List.nodup_range List.nodup_range List.nodup_range))
        fun group => ?_
      · rintro ⟨z, y, x⟩ ⟨z', y', x'⟩ heq
        simp only [Prod.mk.injEq] at heq ⊢
        exact ⟨heq.2.2, heq.2.1, heq.1⟩
      · simp only [List.mem_map, mem_triples, List.mem_range, PoclContext.InGrid]
        constructor
        · rintro ⟨⟨z, y, x⟩, ⟨hz, hy, hx⟩, rfl⟩
          exact ⟨hx, hy, hz⟩
        · rintro ⟨hx, hy, hz⟩
          exact ⟨(group.2.2, group.2.1, group.1), ⟨hz, hy, hx⟩, rfl⟩

/-- The context of a launch with the given numbers of groups of one work-item. -/
def contextOfGroups (x y z : SizeT) : PoclContext where
  workDim := 3
  numGroups := ⟨x, y, z⟩
  globalOffset := ⟨0, 0, 0⟩
  globalSize := ⟨x, y, z⟩
  localSize := ⟨1, 1, 1⟩

theorem contextOfGroups_wellFormed
    {x y z : SizeT} (hx : 0 < x.toNat) (hy : 0 < y.toNat) (hz : 0 < z.toNat) :
    (contextOfGroups x y z).WellFormed where
  workDim_pos := show 1 ≤ 3 by decide
  workDim_le := le_refl 3
  x_pos := hx
  y_pos := hy
  z_pos := hz
  y_unused := fun hdim => absurd hdim (show ¬3 < 2 by decide)
  z_unused := fun hdim => absurd hdim (lt_irrefl 3)

/-- Seven rows of groups on at most three threads. -/
theorem sevenRows_distributesExactly :
    DistributesExactly ⟨some 3, 8⟩ (contextOfGroups 7 2 5) :=
  (distributesExactly_iff
    (contextOfGroups_wellFormed (by decide) (by decide) (by decide))
    (by decide) (by decide)).mpr ⟨by decide, by decide⟩

example : threadArguments ⟨some 3, 8⟩ (contextOfGroups 7 2 5) =
    [⟨0, 1⟩, ⟨2, 3⟩, ⟨4, 6⟩] := by
  decide

/-- With `2 ^ 32` groups in the second dimension the thread of the only row of
groups does not end, while the basic driver calls each group once. -/
theorem wideRow_not_distributesExactly :
    (∀ fuel, run fuel ⟨some 1, 8⟩ (contextOfGroups 1 4294967296 1) = none) ∧
      (∃ fuel, (BasicDriver.run fuel
        (contextOfGroups 1 4294967296 1)).isSome = true) ∧
      ¬DistributesExactly ⟨some 1, 8⟩ (contextOfGroups 1 4294967296 1) := by
  have hpc : (contextOfGroups 1 4294967296 1).WellFormed :=
    contextOfGroups_wellFormed (by decide) (by decide) (by decide)
  have hwide : ¬((contextOfGroups 1 4294967296 1).numGroups.y.toNat < 2 ^ 32 ∧
      (contextOfGroups 1 4294967296 1).numGroups.z.toNat < 2 ^ 32) := by
    decide
  have hta : (⟨0, 0⟩ : ThreadArguments) ∈
      threadArguments ⟨some 1, 8⟩ (contextOfGroups 1 4294967296 1) := by
    decide
  refine ⟨run_diverges hpc hwide hta,
    ⟨enoughFuel (contextOfGroups 1 4294967296 1), ?_⟩, fun hexact => ?_⟩
  · rw [basicRun_eq le_rfl]
    rfl
  · obtain ⟨fuel, threads, _, _, hrun, _⟩ := hexact.calls
    rw [run_diverges hpc hwide hta] at hrun
    cases hrun

end PthreadDriver

end Pocl
