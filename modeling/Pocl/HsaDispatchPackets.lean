import Pocl.HsaDispatch
import Pocl.NDRangeValidation

/-!
# The dispatch packets of the HSA driver

The grid sizes have 32 bits in the packet, but they are cast to 16 bits like the sizes of
the work-group.  No test of a launch on a GPU bounds them.

The write index of a queue goes up with every dispatch.  The mask takes its remainder by
the size of the queue, also when the index wraps around.
-/

namespace Pocl.HsaDispatch

structure DescribesRange (pc : PoclContext) (packet : DispatchPacket) : Prop where
  grid_x : packet.gridSizeX.toNat = pc.globalSize.x.toNat
  grid_y : packet.gridSizeY.toNat = pc.globalSize.y.toNat
  grid_z : packet.gridSizeZ.toNat = pc.globalSize.z.toNat
  workgroup_x : packet.workgroupSizeX.toNat = pc.localSize.x.toNat
  workgroup_y : packet.workgroupSizeY.toNat = pc.localSize.y.toNat
  workgroup_z : packet.workgroupSizeZ.toNat = pc.localSize.z.toNat

/-- After any number of dispatches, the next packet is stored in the slot of the write index
modulo the size of the queue, and nowhere else. -/
def StoresInOrder (packet : DispatchPacket) : Prop :=
  ∀ (queue : Queue) (exponent : ℕ), queue.size.toNat = 2 ^ exponent →
    ∀ packets : List DispatchPacket,
      (queue.dispatchAll packets).writeIndex.toNat =
          (queue.writeIndex.toNat + packets.length) % 2 ^ 64 ∧
        ((queue.dispatchAll packets).dispatch packet).slots =
          Function.update (queue.dispatchAll packets).slots
            ((queue.writeIndex.toNat + packets.length) % queue.size.toNat) (some packet)

/-- The packet of a command on any kernel. -/
def DispatchesRange (pc : PoclContext) : Prop :=
  ∀ (descriptor : CodeDescriptor) (groupSegmentSize : BitVec 32)
    (kernelArgBuffer signal : BitVec 64),
    DescribesRange pc
        (dispatchPacket pc descriptor groupSegmentSize kernelArgBuffer signal) ∧
      StoresInOrder (dispatchPacket pc descriptor groupSegmentSize kernelArgBuffer signal)

def FitsHalfWords (sizes : Sizes) : Prop :=
  sizes.x.toNat < 2 ^ 16 ∧ sizes.y.toNat < 2 ^ 16 ∧ sizes.z.toNat < 2 ^ 16

instance (sizes : Sizes) : Decidable (FitsHalfWords sizes) :=
  inferInstanceAs (Decidable (_ ∧ _ ∧ _))

section Casts

variable (size : SizeT)

theorem setWidth_halfWord_eq_iff :
    (size.setWidth 16).toNat = size.toNat ↔ size.toNat < 2 ^ 16 := by
  rw [BitVec.toNat_setWidth]
  constructor
  · intro heq
    rw [← heq]
    exact Nat.mod_lt _ (Nat.two_pow_pos 16)
  · exact Nat.mod_eq_of_lt

theorem setWidth_word_eq_iff :
    ((size.setWidth 16).setWidth 32).toNat = size.toNat ↔ size.toNat < 2 ^ 16 := by
  rw [BitVec.toNat_setWidth_of_le (by decide), setWidth_halfWord_eq_iff]

theorem describesRange_iff
    (pc : PoclContext) (descriptor : CodeDescriptor) (groupSegmentSize : BitVec 32)
    (kernelArgBuffer signal : BitVec 64) :
    DescribesRange pc
        (dispatchPacket pc descriptor groupSegmentSize kernelArgBuffer signal) ↔
      FitsHalfWords pc.globalSize ∧ FitsHalfWords pc.localSize := by
  constructor
  · intro hpacket
    exact ⟨⟨(setWidth_word_eq_iff _).mp hpacket.grid_x,
        (setWidth_word_eq_iff _).mp hpacket.grid_y,
        (setWidth_word_eq_iff _).mp hpacket.grid_z⟩,
      (setWidth_halfWord_eq_iff _).mp hpacket.workgroup_x,
      (setWidth_halfWord_eq_iff _).mp hpacket.workgroup_y,
      (setWidth_halfWord_eq_iff _).mp hpacket.workgroup_z⟩
  · rintro ⟨⟨hgridX, hgridY, hgridZ⟩, hgroupX, hgroupY, hgroupZ⟩
    exact ⟨(setWidth_word_eq_iff _).mpr hgridX, (setWidth_word_eq_iff _).mpr hgridY,
      (setWidth_word_eq_iff _).mpr hgridZ, (setWidth_halfWord_eq_iff _).mpr hgroupX,
      (setWidth_halfWord_eq_iff _).mpr hgroupY, (setWidth_halfWord_eq_iff _).mpr hgroupZ⟩

end Casts

namespace Queue

variable {queue : Queue} {exponent : ℕ} {packet : DispatchPacket}

theorem slot_eq (hsize : queue.size.toNat = 2 ^ exponent) (index : BitVec 64) :
    queue.slot index = index.toNat % queue.size.toNat := by
  have hpos : 1 ≤ 2 ^ exponent := Nat.one_le_two_pow
  have hmask : ((queue.size - 1).setWidth 64).toNat = 2 ^ exponent - 1 := by
    have hlt := queue.size.isLt
    rw [BitVec.toNat_setWidth_of_le (by decide), BitVec.toNat_sub_of_le, hsize]
    · rfl
    · rw [BitVec.le_def, hsize]
      exact hpos
  rw [slot, BitVec.toNat_and, hmask, hsize]
  exact Nat.and_two_pow_sub_one_eq_mod _ _

theorem dispatchAll_size (queue : Queue) (packets : List DispatchPacket) :
    (queue.dispatchAll packets).size = queue.size := by
  induction packets generalizing queue with
  | nil => rfl
  | cons packet packets ih => exact ih (queue.dispatch packet)

theorem dispatchAll_writeIndex (queue : Queue) (packets : List DispatchPacket) :
    (queue.dispatchAll packets).writeIndex =
      queue.writeIndex + BitVec.ofNat 64 packets.length := by
  induction packets generalizing queue with
  | nil => simp [dispatchAll]
  | cons packet packets ih =>
      have hnext := ih (queue.dispatch packet)
      rw [dispatchAll, List.foldl_cons]
      refine hnext.trans ?_
      rw [List.length_cons, Nat.add_comm, BitVec.ofNat_add, ← BitVec.add_assoc]
      rfl

theorem dvd_of_size (hsize : queue.size.toNat = 2 ^ exponent) : queue.size.toNat ∣ 2 ^ 64 := by
  have hlt := queue.size.isLt
  rw [hsize] at hlt ⊢
  have hexponent := (Nat.pow_lt_pow_iff_right (by decide)).mp hlt
  exact Nat.pow_dvd_pow 2 (by omega)

theorem storesInOrder (packet : DispatchPacket) : StoresInOrder packet := by
  intro queue exponent hsize packets
  have hindex : (queue.dispatchAll packets).writeIndex.toNat =
      (queue.writeIndex.toNat + packets.length) % 2 ^ 64 := by
    rw [dispatchAll_writeIndex, BitVec.toNat_add, BitVec.toNat_ofNat, Nat.add_mod_mod]
  refine ⟨hindex, ?_⟩
  have hsize' : (queue.dispatchAll packets).size.toNat = 2 ^ exponent := by
    rw [dispatchAll_size, hsize]
  have hslot := slot_eq hsize' (queue.dispatchAll packets).writeIndex
  rw [dispatch, hslot, hindex, dispatchAll_size, Nat.mod_mod_of_dvd _ (dvd_of_size hsize)]

end Queue

/-- A launch on any device, and so on a GPU. -/
theorem dispatchesRange_iff
    {device : NDRangeDevice} {call : NDRangeCall} {pc : PoclContext}
    (haccept : clEnqueueNDRangeKernel device call = .ok pc) :
    DispatchesRange pc ↔
      FitsHalfWords call.globalSize ∧ FitsHalfWords (localSize device call) := by
  obtain ⟨-, -, -, rfl⟩ := launch_ok_iff.mp haccept
  constructor
  · intro hdispatches
    exact (describesRange_iff _ _ _ _ _).mp (hdispatches ⟨0, 0, 0, 0⟩ 0 0 0).1
  · intro hfits descriptor groupSegmentSize kernelArgBuffer signal
    exact ⟨(describesRange_iff _ _ _ _ _).mpr hfits, Queue.storesInOrder _⟩

def gpuDevice : NDRangeDevice where
  isCpu := false
  maxWorkItemDimensions := 3
  maxWorkGroupSize := 256
  maxWorkItemSizes := ⟨256, 256, 256⟩
  preferredWgSizeMultiple := 64

/-- A row of work-items in groups of 64. -/
def rowCall (size : SizeT) : NDRangeCall where
  workDim := 1
  globalWorkOffset := none
  globalWorkSize := ⟨size, 1, 1⟩
  localWorkSize := some ⟨64, 1, 1⟩
  deviceOfKernel := true
  eventWaitList := false
  numEventsInWaitList := 0
  building := .ok ()

def rowContext (size : SizeT) : PoclContext :=
  ⟨1, ⟨size / 64, 1, 1⟩, ⟨0, 0, 0⟩, ⟨size, 1, 1⟩, ⟨64, 1, 1⟩⟩

/-- The grid size of the packet is zero. -/
theorem longRow_not_dispatched :
    clEnqueueNDRangeKernel gpuDevice (rowCall 65536) = .ok (rowContext 65536) ∧
      ¬ DispatchesRange (rowContext 65536) := by
  refine ⟨rfl, fun hdispatches => ?_⟩
  have hgrid := (hdispatches ⟨0, 0, 0, 0⟩ 0 0 0).1.grid_x
  exact absurd hgrid (by decide)

theorem shortRow_dispatched : DispatchesRange (rowContext 4096) := by
  have haccept : clEnqueueNDRangeKernel gpuDevice (rowCall 4096) = .ok (rowContext 4096) := rfl
  exact (dispatchesRange_iff haccept).mpr (by decide)

end Pocl.HsaDispatch
