import Pocl.ExceptPrograms
import Pocl.NDRanges

/-!
# Global ids tile the index space

In each dimension the local size times the number of groups is the global size,
so that the ids of one dimension run through an interval.  They start where the
client asked for only if the unused dimensions have no offset, and they stay in
the interval only if its end is a `size_t`.
-/

namespace Pocl

open ExceptPrograms

/-- One dimension of an accepted launch. -/
structure Axis (size localSize groups : SizeT) : Prop where
  mul_eq : localSize.toNat * groups.toNat = size.toNat
  size_pos : 0 < size.toNat

namespace Axis

variable {offset size localSize groups group item : SizeT}

theorem of_dvd (hsize : size ≠ 0) (hmod : size % localSize = 0) :
    Axis size localSize (size / localSize) where
  mul_eq := by
    have hzero : size.toNat % localSize.toNat = 0 := by
      rw [← BitVec.toNat_umod, hmod]
      rfl
    rw [BitVec.toNat_udiv]
    exact Nat.mul_div_cancel' (Nat.dvd_of_mod_eq_zero hzero)
  size_pos := by
    rw [Nat.pos_iff_ne_zero]
    intro hzero
    exact hsize (BitVec.eq_of_toNat_eq hzero)

theorem local_pos (haxis : Axis size localSize groups) : 0 < localSize.toNat := by
  have hpos := haxis.size_pos
  rw [← haxis.mul_eq] at hpos
  exact Nat.pos_of_mul_pos_right hpos

theorem groups_pos (haxis : Axis size localSize groups) : 0 < groups.toNat := by
  have hpos := haxis.size_pos
  rw [← haxis.mul_eq] at hpos
  exact Nat.pos_of_mul_pos_left hpos

theorem position_lt
    (haxis : Axis size localSize groups)
    (hgroup : group.toNat < groups.toNat) (hitem : item.toNat < localSize.toNat) :
    localSize.toNat * group.toNat + item.toNat < size.toNat := by
  have hnext : localSize.toNat * (group.toNat + 1) ≤
      localSize.toNat * groups.toNat := Nat.mul_le_mul_left _ hgroup
  rw [haxis.mul_eq, Nat.mul_succ] at hnext
  omega

theorem id_eq
    (haxis : Axis size localSize groups)
    (hgroup : group.toNat < groups.toNat) (hitem : item.toNat < localSize.toNat) :
    (offset + localSize * group + item).toNat =
      (offset.toNat + (localSize.toNat * group.toNat + item.toNat)) % 2 ^ 64 := by
  have hlt := haxis.position_lt hgroup hitem
  rw [BitVec.toNat_add, BitVec.toNat_add, BitVec.toNat_mul, Nat.add_mod_mod,
    Nat.mod_add_mod, Nat.add_assoc]

theorem id_eq_of_fits
    (haxis : Axis size localSize groups)
    (hfits : offset.toNat + size.toNat ≤ 2 ^ 64)
    (hgroup : group.toNat < groups.toNat) (hitem : item.toNat < localSize.toNat) :
    (offset + localSize * group + item).toNat =
      offset.toNat + (localSize.toNat * group.toNat + item.toNat) := by
  have hlt := haxis.position_lt hgroup hitem
  rw [haxis.id_eq hgroup hitem]
  exact Nat.mod_eq_of_lt (by omega)

theorem id_injective
    (haxis : Axis size localSize groups)
    (hfits : offset.toNat + size.toNat ≤ 2 ^ 64)
    {group' item' : SizeT}
    (hgroup : group.toNat < groups.toNat) (hitem : item.toNat < localSize.toNat)
    (hgroup' : group'.toNat < groups.toNat)
    (hitem' : item'.toNat < localSize.toNat)
    (heq : (offset + localSize * group + item).toNat =
      (offset + localSize * group' + item').toNat) :
    group = group' ∧ item = item' := by
  rw [haxis.id_eq_of_fits hfits hgroup hitem,
    haxis.id_eq_of_fits hfits hgroup' hitem'] at heq
  have hposition : localSize.toNat * group.toNat + item.toNat =
      localSize.toNat * group'.toNat + item'.toNat := Nat.add_left_cancel heq
  have hitems : item.toNat = item'.toNat := by
    have hmod := congrArg (· % localSize.toNat) hposition
    simpa only [Nat.mul_add_mod, Nat.mod_eq_of_lt hitem,
      Nat.mod_eq_of_lt hitem'] using hmod
  have hgroups : localSize.toNat * group.toNat =
      localSize.toNat * group'.toNat := by omega
  exact ⟨BitVec.eq_of_toNat_eq (Nat.eq_of_mul_eq_mul_left haxis.local_pos hgroups),
    BitVec.eq_of_toNat_eq hitems⟩

theorem exists_id_iff
    (haxis : Axis size localSize groups)
    (hfits : offset.toNat + size.toNat ≤ 2 ^ 64) (point : ℕ) :
    (∃ group item : SizeT, group.toNat < groups.toNat ∧
      item.toNat < localSize.toNat ∧
      (offset + localSize * group + item).toNat = point) ↔
    offset.toNat ≤ point ∧ point < offset.toNat + size.toNat := by
  constructor
  · rintro ⟨group, item, hgroup, hitem, rfl⟩
    rw [haxis.id_eq_of_fits hfits hgroup hitem]
    have hlt := haxis.position_lt hgroup hitem
    omega
  · rintro ⟨hge, hlt⟩
    have hposition : point - offset.toNat < localSize.toNat * groups.toNat := by
      rw [haxis.mul_eq]
      omega
    have hsize := size.isLt
    -- The group is the quotient of the position, the local id its remainder.
    have hgroup : (point - offset.toNat) / localSize.toNat < groups.toNat :=
      Nat.div_lt_of_lt_mul hposition
    have hitem : (point - offset.toNat) % localSize.toNat < localSize.toNat :=
      Nat.mod_lt _ haxis.local_pos
    have hgroupNat : (BitVec.ofNat 64
        ((point - offset.toNat) / localSize.toNat)).toNat =
          (point - offset.toNat) / localSize.toNat := by
      rw [BitVec.toNat_ofNat]
      exact Nat.mod_eq_of_lt (hgroup.trans groups.isLt)
    have hitemNat : (BitVec.ofNat 64
        ((point - offset.toNat) % localSize.toNat)).toNat =
          (point - offset.toNat) % localSize.toNat := by
      rw [BitVec.toNat_ofNat]
      exact Nat.mod_eq_of_lt (hitem.trans localSize.isLt)
    refine ⟨_, _, hgroupNat.symm ▸ hgroup, hitemNat.symm ▸ hitem, ?_⟩
    rw [haxis.id_eq_of_fits hfits (hgroupNat.symm ▸ hgroup)
      (hitemNat.symm ▸ hitem), hgroupNat, hitemNat, Nat.div_add_mod]
    omega

/-- Where the end of the interval is no `size_t`, the last work-item wraps
around to a point before its start. -/
theorem exists_id_lt
    (haxis : Axis size localSize groups)
    (hfits : ¬offset.toNat + size.toNat ≤ 2 ^ 64) :
    ∃ group item : SizeT, group.toNat < groups.toNat ∧
      item.toNat < localSize.toNat ∧
      (offset + localSize * group + item).toNat < offset.toNat := by
  have hgroups := haxis.groups_pos
  have hlocal := haxis.local_pos
  have hgroupLt : (groups - 1).toNat = groups.toNat - 1 :=
    BitVec.toNat_sub_of_le (by
      rw [BitVec.le_def]
      exact hgroups)
  have hitemLt : (localSize - 1).toNat = localSize.toNat - 1 :=
    BitVec.toNat_sub_of_le (by
      rw [BitVec.le_def]
      exact hlocal)
  refine ⟨groups - 1, localSize - 1, by omega, by omega, ?_⟩
  rw [haxis.id_eq (by omega) (by omega), hgroupLt, hitemLt]
  have hlast : localSize.toNat * (groups.toNat - 1) + (localSize.toNat - 1) =
      size.toNat - 1 := by
    have hmul := haxis.mul_eq
    have hsplit : localSize.toNat * groups.toNat =
        localSize.toNat * (groups.toNat - 1) + localSize.toNat := by
      rw [← Nat.mul_succ, Nat.succ_eq_add_one, Nat.sub_add_cancel hgroups]
    omega
  have hsize := size.isLt
  have hoffset := offset.isLt
  rw [hlast, Nat.mod_eq_sub_mod (by omega), Nat.mod_eq_of_lt (by omega)]
  omega

end Axis

/-- What an accepted launch on a CPU device has in its context. -/
structure Launches (device : NDRangeDevice) (call : NDRangeCall)
    (pc : PoclContext) : Prop where
  workDim_pos : 1 ≤ call.workDim
  workDim_le : call.workDim ≤ 3
  workDim_eq : pc.workDim = call.workDim
  globalOffset_eq : pc.globalOffset = call.offset
  globalSize_eq : pc.globalSize = call.globalSize
  localSize_eq : pc.localSize = localSize device call
  axis_x : Axis call.globalSize.x pc.localSize.x pc.numGroups.x
  axis_y : Axis call.globalSize.y pc.localSize.y pc.numGroups.y
  axis_z : Axis call.globalSize.z pc.localSize.z pc.numGroups.z

theorem checkSizes_ok
    {device : NDRangeDevice} {call : NDRangeCall} {globalSize localSize : Sizes}
    (hok : checkSizes device call globalSize localSize = .ok ()) :
    globalSize.x % localSize.x = 0 ∧ globalSize.y % localSize.y = 0 ∧
      globalSize.z % localSize.z = 0 := by
  unfold checkSizes at hok
  simp only [guard_ok, not_not] at hok
  obtain ⟨-, -, -, hx, -, hy, -, hz, -⟩ := hok
  exact ⟨hx, hy, hz⟩

theorem clEnqueueNDRangeKernel_ok
    {device : NDRangeDevice} {call : NDRangeCall} {pc : PoclContext}
    (hcpu : device.isCpu = true)
    (haccepted : clEnqueueNDRangeKernel device call = .ok pc) :
    Launches device call pc := by
  unfold clEnqueueNDRangeKernel at haccepted
  simp only [guard_ok, hcpu, if_true] at haccepted
  obtain ⟨hdim, hmax, hglobal, haccepted⟩ := haccepted
  cases hcheck : checkSizes device call call.globalSize (localSize device call) with
  | error failure =>
      rw [hcheck] at haccepted
      cases haccepted
  | ok _ =>
      rw [hcheck] at haccepted
      obtain ⟨hx, hy, hz⟩ := checkSizes_ok hcheck
      obtain ⟨-, hpc⟩ := guard_ok.mp haccepted
      cases hpc
      push Not at hdim hglobal
      exact
        { workDim_pos := hdim.1
          workDim_le := by omega
          workDim_eq := rfl
          globalOffset_eq := rfl
          globalSize_eq := rfl
          localSize_eq := rfl
          axis_x := .of_dvd hglobal.1 hx
          axis_y := .of_dvd hglobal.2.1 hy
          axis_z := .of_dvd hglobal.2.2 hz }

theorem mem_idsBelow {bound id : Sizes} :
    id ∈ idsBelow bound ↔
      id.x.toNat < bound.x.toNat ∧ id.y.toNat < bound.y.toNat ∧
        id.z.toNat < bound.z.toNat := by
  simp only [idsBelow, List.mem_map, mem_triples, List.mem_range]
  constructor
  · rintro ⟨⟨x, y, z⟩, ⟨hx, hy, hz⟩, rfl⟩
    simp only [BitVec.toNat_ofNat]
    exact ⟨(Nat.mod_le _ _).trans_lt hx, (Nat.mod_le _ _).trans_lt hy,
      (Nat.mod_le _ _).trans_lt hz⟩
  · rintro ⟨hx, hy, hz⟩
    exact ⟨(id.x.toNat, id.y.toNat, id.z.toNat), ⟨hx, hy, hz⟩,
      by simp only [BitVec.ofNat_toNat, BitVec.setWidth_eq]⟩

theorem ofNat_injOn {a b : ℕ} {bound : SizeT} (ha : a < bound.toNat)
    (hb : b < bound.toNat) (heq : BitVec.ofNat 64 a = BitVec.ofNat 64 b) :
    a = b := by
  have hnat := congrArg BitVec.toNat heq
  rwa [BitVec.toNat_ofNat, BitVec.toNat_ofNat,
    Nat.mod_eq_of_lt (ha.trans bound.isLt),
    Nat.mod_eq_of_lt (hb.trans bound.isLt)] at hnat

theorem nodup_idsBelow (bound : Sizes) : (idsBelow bound).Nodup := by
  refine List.Nodup.map_on ?_
    (nodup_triples List.nodup_range List.nodup_range List.nodup_range)
  intro a ha b hb heq
  simp only [mem_triples, List.mem_range] at ha hb
  simp only [Sizes.mk.injEq] at heq
  exact Prod.ext (ofNat_injOn ha.1 hb.1 heq.1)
    (Prod.ext (ofNat_injOn ha.2.1 hb.2.1 heq.2.1)
      (ofNat_injOn ha.2.2 hb.2.2 heq.2.2))

namespace PoclContext

theorem mem_globalIds {pc : PoclContext} {point : ℕ × ℕ × ℕ} :
    point ∈ pc.globalIds ↔
      ∃ group ∈ idsBelow pc.numGroups, ∃ item ∈ idsBelow pc.localSize,
        pc.globalId group item = point := by
  simp only [globalIds, List.mem_flatMap, List.mem_map]

end PoclContext

namespace NDRangeCall

/-- The condition under which the ids are those that the client asked for. -/
def OffsetFits (call : NDRangeCall) : Prop :=
  call.globalWorkOffset = none ∨
    (call.workDim = 3 ∧
      ∀ dim, (call.extent dim).offset + (call.extent dim).size ≤ 2 ^ 64)

end NDRangeCall

namespace Launches

variable {device : NDRangeDevice} {call : NDRangeCall} {pc : PoclContext}

theorem size_x (hlaunch : Launches device call pc) :
    (call.extent 0).size = call.globalSize.x.toNat := by
  have hdim := hlaunch.workDim_pos
  simp [NDRangeCall.extent, NDRangeCall.globalSize, NDRangeCall.sizes,
    show 0 < call.workDim from hdim]

theorem size_y (_hlaunch : Launches device call pc) :
    (call.extent 1).size = call.globalSize.y.toNat := by
  by_cases hdim : 1 < call.workDim
  · simp [NDRangeCall.extent, NDRangeCall.globalSize, NDRangeCall.sizes, hdim]
  · simp [NDRangeCall.extent, NDRangeCall.globalSize, NDRangeCall.sizes, hdim]

theorem size_z (_hlaunch : Launches device call pc) :
    (call.extent 2).size = call.globalSize.z.toNat := by
  by_cases hdim : 2 < call.workDim
  · simp [NDRangeCall.extent, NDRangeCall.globalSize, NDRangeCall.sizes, hdim]
  · simp [NDRangeCall.extent, NDRangeCall.globalSize, NDRangeCall.sizes, hdim]

theorem size_fits (size : SizeT) : 0 + size.toNat ≤ 2 ^ 64 := by
  have hlt := size.isLt
  omega

theorem extent_offset (hdim : call.workDim = 3) :
    (call.extent 0).offset = call.offset.x.toNat ∧
      (call.extent 1).offset = call.offset.y.toNat ∧
      (call.extent 2).offset = call.offset.z.toNat := by
  cases hoffset : call.globalWorkOffset with
  | none => simp [NDRangeCall.extent, NDRangeCall.offset, hdim, hoffset]
  | some given => simp [NDRangeCall.extent, NDRangeCall.offset, hdim, hoffset]

/-- Under the condition the context has the offset of the box, and no id wraps
around. -/
theorem offset_fits
    (hlaunch : Launches device call pc) (hfits : call.OffsetFits) :
    ((call.extent 0).offset = pc.globalOffset.x.toNat ∧
      pc.globalOffset.x.toNat + call.globalSize.x.toNat ≤ 2 ^ 64) ∧
    ((call.extent 1).offset = pc.globalOffset.y.toNat ∧
      pc.globalOffset.y.toNat + call.globalSize.y.toNat ≤ 2 ^ 64) ∧
    ((call.extent 2).offset = pc.globalOffset.z.toNat ∧
      pc.globalOffset.z.toNat + call.globalSize.z.toNat ≤ 2 ^ 64) := by
  rw [hlaunch.globalOffset_eq, ← hlaunch.size_x, ← hlaunch.size_y,
    ← hlaunch.size_z]
  rcases hfits with hnone | ⟨hdim, hfits⟩
  · have hoffset : call.offset = ⟨0, 0, 0⟩ := by
      simp [NDRangeCall.offset, hnone]
    have hextent : ∀ dim, (call.extent dim).offset = 0 := by
      intro dim
      by_cases hused : dim.val < call.workDim
      · simp [NDRangeCall.extent, hused, hnone]
      · simp [NDRangeCall.extent, hused]
    rw [hoffset, hextent, hextent, hextent, hlaunch.size_x, hlaunch.size_y,
      hlaunch.size_z]
    exact ⟨⟨rfl, size_fits _⟩, ⟨rfl, size_fits _⟩, ⟨rfl, size_fits _⟩⟩
  · obtain ⟨hx, hy, hz⟩ := extent_offset hdim
    exact ⟨⟨hx, hx ▸ hfits 0⟩, ⟨hy, hy ▸ hfits 1⟩, ⟨hz, hz ▸ hfits 2⟩⟩

theorem mem_globalIds_iff
    (hlaunch : Launches device call pc) (hfits : call.OffsetFits)
    (point : ℕ × ℕ × ℕ) : point ∈ pc.globalIds ↔ call.InBox point := by
  obtain ⟨⟨hx, hfitsX⟩, ⟨hy, hfitsY⟩, ⟨hz, hfitsZ⟩⟩ := hlaunch.offset_fits hfits
  rw [PoclContext.mem_globalIds, NDRangeCall.InBox, Extent.Holds, Extent.Holds,
    Extent.Holds, hx, hy, hz, hlaunch.size_x, hlaunch.size_y, hlaunch.size_z,
    ← hlaunch.axis_x.exists_id_iff hfitsX, ← hlaunch.axis_y.exists_id_iff hfitsY,
    ← hlaunch.axis_z.exists_id_iff hfitsZ]
  constructor
  · rintro ⟨group, hgroup, item, hitem, rfl⟩
    obtain ⟨hgx, hgy, hgz⟩ := mem_idsBelow.mp hgroup
    obtain ⟨hix, hiy, hiz⟩ := mem_idsBelow.mp hitem
    exact ⟨⟨_, _, hgx, hix, rfl⟩, ⟨_, _, hgy, hiy, rfl⟩, ⟨_, _, hgz, hiz, rfl⟩⟩
  · rintro ⟨⟨gx, ix, hgx, hix, hpx⟩, ⟨gy, iy, hgy, hiy, hpy⟩,
      ⟨gz, iz, hgz, hiz, hpz⟩⟩
    exact ⟨⟨gx, gy, gz⟩, mem_idsBelow.mpr ⟨hgx, hgy, hgz⟩, ⟨ix, iy, iz⟩,
      mem_idsBelow.mpr ⟨hix, hiy, hiz⟩,
      Prod.ext hpx (Prod.ext hpy hpz)⟩

theorem globalId_injective
    (hlaunch : Launches device call pc) (hfits : call.OffsetFits)
    {group item group' item' : Sizes}
    (hgroup : group ∈ idsBelow pc.numGroups) (hitem : item ∈ idsBelow pc.localSize)
    (hgroup' : group' ∈ idsBelow pc.numGroups)
    (hitem' : item' ∈ idsBelow pc.localSize)
    (heq : pc.globalId group item = pc.globalId group' item') :
    group = group' ∧ item = item' := by
  obtain ⟨⟨-, hfitsX⟩, ⟨-, hfitsY⟩, ⟨-, hfitsZ⟩⟩ := hlaunch.offset_fits hfits
  obtain ⟨hgx, hgy, hgz⟩ := mem_idsBelow.mp hgroup
  obtain ⟨hix, hiy, hiz⟩ := mem_idsBelow.mp hitem
  obtain ⟨hgx', hgy', hgz'⟩ := mem_idsBelow.mp hgroup'
  obtain ⟨hix', hiy', hiz'⟩ := mem_idsBelow.mp hitem'
  obtain ⟨hpx, hpyz⟩ := Prod.mk.inj heq
  obtain ⟨hpy, hpz⟩ := Prod.mk.inj hpyz
  have hx := hlaunch.axis_x.id_injective hfitsX hgx hix hgx' hix' hpx
  have hy := hlaunch.axis_y.id_injective hfitsY hgy hiy hgy' hiy' hpy
  have hz := hlaunch.axis_z.id_injective hfitsZ hgz hiz hgz' hiz' hpz
  cases group
  cases item
  cases group'
  cases item'
  simp only [Sizes.mk.injEq]
  exact ⟨⟨hx.1, hy.1, hz.1⟩, ⟨hx.2, hy.2, hz.2⟩⟩

theorem nodup_globalIds
    (hlaunch : Launches device call pc) (hfits : call.OffsetFits) :
    pc.globalIds.Nodup := by
  refine List.nodup_flatMap.mpr ⟨fun group hgroup => ?_, ?_⟩
  · refine List.Nodup.map_on ?_ (nodup_idsBelow _)
    intro item hitem item' hitem' heq
    exact (hlaunch.globalId_injective hfits hgroup hitem hgroup hitem' heq).2
  · refine (nodup_idsBelow _).pairwise_of_forall_ne
      fun group hgroup group' hgroup' hne => ?_
    intro point hpoint hpoint'
    obtain ⟨item, hitem, rfl⟩ := List.mem_map.mp hpoint
    obtain ⟨item', hitem', heq⟩ := List.mem_map.mp hpoint'
    exact hne (hlaunch.globalId_injective hfits hgroup hitem hgroup' hitem'
      heq.symm).1

theorem getGlobalSize_eq
    (hlaunch : Launches device call pc) (groupId localId : Sizes) (dim : Fin 3) :
    ((pc.launch groupId localId).getGlobalSize dim).toNat =
      (call.extent dim).size := by
  have hmul : ∀ {size localSize groups : SizeT}, Axis size localSize groups →
      (localSize * groups).toNat = size.toNat := by
    intro size localSize groups haxis
    rw [BitVec.toNat_mul, haxis.mul_eq]
    exact Nat.mod_eq_of_lt size.isLt
  fin_cases dim
  · exact (hmul hlaunch.axis_x).trans hlaunch.size_x.symm
  · exact (hmul hlaunch.axis_y).trans hlaunch.size_y.symm
  · exact (hmul hlaunch.axis_z).trans hlaunch.size_z.symm

theorem tiles_of_fits
    (hlaunch : Launches device call pc) (hfits : call.OffsetFits) :
    pc.Tiles call where
  exactly_once := by
    intro point
    rw [(hlaunch.nodup_globalIds hfits).count]
    simp only [hlaunch.mem_globalIds_iff hfits point]
  global_size := hlaunch.getGlobalSize_eq

theorem globalId_inBox
    (htiles : pc.Tiles call) {group item : Sizes}
    (hgroup : group ∈ idsBelow pc.numGroups) (hitem : item ∈ idsBelow pc.localSize) :
    call.InBox (pc.globalId group item) := by
  have hmem : pc.globalId group item ∈ pc.globalIds :=
    PoclContext.mem_globalIds.mpr ⟨group, hgroup, item, hitem, rfl⟩
  have hcount := htiles.exactly_once (pc.globalId group item)
  have hpos := List.count_pos_iff.mpr hmem
  by_contra hout
  rw [if_neg hout] at hcount
  omega

theorem zero_mem
    (hlaunch : Launches device call pc) :
    (⟨0, 0, 0⟩ : Sizes) ∈ idsBelow pc.numGroups ∧
      (⟨0, 0, 0⟩ : Sizes) ∈ idsBelow pc.localSize :=
  ⟨mem_idsBelow.mpr ⟨hlaunch.axis_x.groups_pos, hlaunch.axis_y.groups_pos,
      hlaunch.axis_z.groups_pos⟩,
    mem_idsBelow.mpr ⟨hlaunch.axis_x.local_pos, hlaunch.axis_y.local_pos,
      hlaunch.axis_z.local_pos⟩⟩

theorem inBox_of_lt
    (htiles : pc.Tiles call) {gx gy gz ix iy iz : SizeT}
    (hgx : gx.toNat < pc.numGroups.x.toNat) (hgy : gy.toNat < pc.numGroups.y.toNat)
    (hgz : gz.toNat < pc.numGroups.z.toNat) (hix : ix.toNat < pc.localSize.x.toNat)
    (hiy : iy.toNat < pc.localSize.y.toNat) (hiz : iz.toNat < pc.localSize.z.toNat) :
    call.InBox (pc.globalId ⟨gx, gy, gz⟩ ⟨ix, iy, iz⟩) :=
  globalId_inBox htiles (mem_idsBelow.mpr ⟨hgx, hgy, hgz⟩)
    (mem_idsBelow.mpr ⟨hix, hiy, hiz⟩)

/-- An offset that is given for fewer than three dimensions is one in the last
dimension, where the box has the point zero only. -/
theorem workDim_eq_three
    (hlaunch : Launches device call pc) (htiles : pc.Tiles call)
    {given : Sizes} (hgiven : call.globalWorkOffset = some given) :
    call.workDim = 3 := by
  by_contra hne
  have hle := hlaunch.workDim_le
  have hunused : ¬2 < call.workDim := by omega
  obtain ⟨hgroup, hitem⟩ := hlaunch.zero_mem
  have hbox := (globalId_inBox htiles hgroup hitem).2.2
  have hextent : call.extent 2 = ⟨0, 1⟩ := by
    simp [NDRangeCall.extent, hunused]
  have hid : (pc.globalId ⟨0, 0, 0⟩ ⟨0, 0, 0⟩).2.2 = 1 := by
    simp [PoclContext.globalId, PoclContext.launch, KernelVariables.getGlobalId,
      hlaunch.globalOffset_eq, NDRangeCall.offset, hgiven, hunused]
  rw [hextent, hid] at hbox
  exact absurd hbox.2 (by decide)

theorem fits_of_tiles
    (hlaunch : Launches device call pc) (htiles : pc.Tiles call) :
    call.OffsetFits := by
  cases hgiven : call.globalWorkOffset with
  | none => exact .inl hgiven
  | some given =>
      have hdim := hlaunch.workDim_eq_three htiles hgiven
      obtain ⟨hx, hy, hz⟩ := extent_offset hdim
      obtain ⟨hgroup, hitem⟩ := hlaunch.zero_mem
      obtain ⟨hgx, hgy, hgz⟩ := mem_idsBelow.mp hgroup
      obtain ⟨hix, hiy, hiz⟩ := mem_idsBelow.mp hitem
      refine .inr ⟨hdim, fun dim => ?_⟩
      by_contra hover
      -- In the dimension that overflows the last work-item has an id below the
      -- offset, whatever its ids in the other two.
      fin_cases dim
      · rw [Fin.zero_eta, hx, hlaunch.size_x, ← hlaunch.globalOffset_eq] at hover
        obtain ⟨group, item, hgroup, hitem, hid⟩ :=
          hlaunch.axis_x.exists_id_lt hover
        have hbox := (inBox_of_lt htiles hgroup hgy hgz hitem hiy hiz).1.1
        rw [hx, ← hlaunch.globalOffset_eq] at hbox
        exact absurd hid (Nat.not_lt.mpr hbox)
      · rw [Fin.mk_one, hy, hlaunch.size_y, ← hlaunch.globalOffset_eq] at hover
        obtain ⟨group, item, hgroup, hitem, hid⟩ :=
          hlaunch.axis_y.exists_id_lt hover
        have hbox := (inBox_of_lt htiles hgx hgroup hgz hix hitem hiz).2.1.1
        rw [hy, ← hlaunch.globalOffset_eq] at hbox
        exact absurd hid (Nat.not_lt.mpr hbox)
      · simp only [Fin.reduceFinMk] at hover
        rw [hz, hlaunch.size_z, ← hlaunch.globalOffset_eq] at hover
        obtain ⟨group, item, hgroup, hitem, hid⟩ :=
          hlaunch.axis_z.exists_id_lt hover
        have hbox := (inBox_of_lt htiles hgx hgy hgroup hix hiy hitem).2.2.1
        rw [hz, ← hlaunch.globalOffset_eq] at hbox
        exact absurd hid (Nat.not_lt.mpr hbox)

end Launches

/-- A launch that a CPU device accepts covers exactly the box that the client
asked for if and only if no offset is given, or one is given for all three
dimensions and the box ends within the range of a `size_t`. -/
theorem tiles_iff_offsetFits
    {device : NDRangeDevice} {call : NDRangeCall} {pc : PoclContext}
    (hcpu : device.isCpu = true)
    (haccepted : clEnqueueNDRangeKernel device call = .ok pc) :
    pc.Tiles call ↔ call.OffsetFits := by
  have hlaunch := clEnqueueNDRangeKernel_ok hcpu haccepted
  exact ⟨hlaunch.fits_of_tiles, hlaunch.tiles_of_fits⟩

/-- The limits of the basic driver. -/
def basicDevice : NDRangeDevice where
  isCpu := true
  maxWorkItemDimensions := 3
  maxWorkGroupSize := 1024
  maxWorkItemSizes := ⟨2147483647, 2147483647, 2147483647⟩
  preferredWgSizeMultiple := 8

/-- Four work-items in groups of two. -/
def fourItems (workDim : ℕ) (offset : Option Sizes) : NDRangeCall where
  workDim := workDim
  globalWorkOffset := offset
  globalWorkSize := ⟨4, 1, 1⟩
  localWorkSize := some ⟨2, 1, 1⟩
  deviceOfKernel := true
  eventWaitList := false
  numEventsInWaitList := 0
  building := .ok ()

def fourItemsContext (workDim : ℕ) (offset : Sizes) : PoclContext where
  workDim := workDim
  numGroups := ⟨2, 1, 1⟩
  globalOffset := offset
  globalSize := ⟨4, 1, 1⟩
  localSize := ⟨2, 1, 1⟩

theorem fourItems_tiles :
    clEnqueueNDRangeKernel basicDevice (fourItems 3 (some ⟨5, 0, 2⟩)) =
        .ok (fourItemsContext 3 ⟨5, 0, 2⟩) ∧
      (fourItemsContext 3 ⟨5, 0, 2⟩).Tiles (fourItems 3 (some ⟨5, 0, 2⟩)) :=
  ⟨by rfl, (tiles_iff_offsetFits (show basicDevice.isCpu = true from rfl) rfl).mpr
    (.inr ⟨rfl, by decide⟩)⟩

/-- With an offset in the only dimension that is used, the four work-items get
the ids `(5, 1, 1)` to `(8, 1, 1)`. -/
theorem fourItems_offset_not_tiles :
    clEnqueueNDRangeKernel basicDevice (fourItems 1 (some ⟨5, 0, 0⟩)) =
        .ok (fourItemsContext 1 ⟨5, 1, 1⟩) ∧
      (fourItemsContext 1 ⟨5, 1, 1⟩).globalIds =
        [(5, 1, 1), (6, 1, 1), (7, 1, 1), (8, 1, 1)] ∧
      ¬(fourItemsContext 1 ⟨5, 1, 1⟩).Tiles (fourItems 1 (some ⟨5, 0, 0⟩)) := by
  refine ⟨by rfl, by decide, fun htiles => ?_⟩
  have hcount := htiles.exactly_once (5, 0, 0)
  revert hcount
  decide

end Pocl
