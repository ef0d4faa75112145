import Pocl.AlignedLayouts
import Pocl.HsaDispatch

/-!
# The layout of the arguments for the HSA driver

The finalizer places every argument at a multiple of its size.  The driver moves its
pointer to a multiple of eight for pointers and handles only, so a scalar is placed where
the argument before it ends.
-/

namespace Pocl.HsaDispatch

open KernelArguments AlignedLayouts

/-- The value that is needed has been set, and a scalar has the size of a type. -/
structure Passable (arg : LaunchArg) : Prop where
  image : arg.kinds.isImage = true → arg.captured.value ≠ none
  scalar : isScalar arg.kinds = true →
    arg.captured.value ≠ none ∧ ∃ exponent, arg.captured.size = 2 ^ exponent

def localArgs (args : List LaunchArg) : List LaunchArg :=
  args.filter fun arg => arg.kinds.isLocal

def capturedLocalSize (args : List LaunchArg) : ℕ :=
  ((localArgs args).map fun arg => arg.captured.size).sum

def currentLocalSize (args : List LaunchArg) : ℕ :=
  ((localArgs args).map fun arg => arg.current.size).sum

/-- The local memory that an argument is given, with its size. -/
def localRange (arg : LaunchArg) (store : Store) : Option (ℕ × ℕ) :=
  match store.contents with
  | .localPointer pointer => some (pointer, arg.captured.size)
  | _ => none

def localRanges (args : List LaunchArg) (stores : List Store) : List (ℕ × ℕ) :=
  (args.zip stores).filterMap fun pair => localRange pair.1 pair.2

structure PacksNaturally
    (descriptor : CodeDescriptor) (hidden : ℕ) (args : List LaunchArg)
    (stores : List Store) (packet : DispatchPacket) : Prop where
  sizes : stores.map Store.size = args.map argSize
  placed : PlacedNaturally (8 * hidden) (args.map argSize) (stores.map Store.offset)
  inside : descriptor.kernargSegmentByteSize.toNat =
      naturalEnd (8 * hidden) (args.map argSize) →
    ∀ store ∈ stores, store.offset + store.size ≤ descriptor.kernargSegmentByteSize.toNat
  locals_disjoint : (localRanges args stores).Pairwise fun first second =>
    first.1 + first.2 ≤ second.1 ∨ second.1 + second.2 ≤ first.1
  locals_above : ∀ range ∈ localRanges args stores,
    descriptor.workgroupGroupSegmentByteSize.toNat ≤ range.1
  groupSegmentSize : packet.groupSegmentSize.toNat =
    descriptor.workgroupGroupSegmentByteSize.toNat + capturedLocalSize args

/-- Where the arguments before a scalar end in the natural layout, the scalar needs no
padding. -/
def ScalarsFollow : ℕ → List LaunchArg → Prop
  | _, [] => True
  | stop, arg :: args =>
      (isScalar arg.kinds = true → argSize arg ∣ stop) ∧
        ScalarsFollow (alignUp stop (argSize arg) + argSize arg) args

/-- The local memory is counted as it has been captured, and its size is a 32-bit word. -/
structure LocalsCounted (descriptor : CodeDescriptor) (args : List LaunchArg) : Prop where
  fits : descriptor.workgroupGroupSegmentByteSize.toNat + capturedLocalSize args < 2 ^ 32
  current : currentLocalSize args ≡ capturedLocalSize args [MOD 2 ^ 32]

section Offsets

variable {arg : LaunchArg} {args : List LaunchArg}

/-- Where an argument is stored, if the ones before it end at the given offset. -/
def placeOf (offset : ℕ) (arg : LaunchArg) : ℕ :=
  if isScalar arg.kinds then offset else alignPointer offset

def placesFrom : ℕ → List LaunchArg → List ℕ
  | _, [] => []
  | offset, arg :: args => placeOf offset arg :: placesFrom (placeOf offset arg + argSize arg) args

theorem alignPointer_eq (offset : ℕ) : alignPointer offset = alignUp offset 8 := by
  rw [alignPointer, alignUp]
  by_cases hzero : offset % 8 = 0
  · rw [if_neg (not_not_intro hzero), hzero]
    rfl
  · rw [if_pos hzero]
    omega

theorem argSize_pos (harg : Passable arg) : 0 < argSize arg := by
  rw [argSize]
  split
  next hscalar =>
    obtain ⟨exponent, hsize⟩ := (harg.scalar hscalar).2
    rw [hsize]
    exact Nat.two_pow_pos exponent
  next => decide

theorem placeOf_le_alignUp {offset stop : ℕ} (hle : offset ≤ stop) :
    placeOf offset arg ≤ alignUp stop (argSize arg) := by
  rw [placeOf]
  split
  next => exact hle.trans le_alignUp
  next hpointer =>
    rw [argSize, if_neg hpointer, alignPointer_eq]
    exact alignUp_mono (by decide) hle

/-- A pointer or a handle is placed as in the natural layout, and a scalar is if there is
no padding. -/
theorem placeOf_eq_alignUp_iff {offset : ℕ} (hpos : 0 < argSize arg) :
    placeOf offset arg = alignUp offset (argSize arg) ↔
      (isScalar arg.kinds = true → argSize arg ∣ offset) := by
  by_cases hscalar : isScalar arg.kinds = true
  · rw [placeOf, if_pos hscalar, eq_comm, alignUp_eq_self_iff hpos]
    exact ⟨fun hdvd _ => hdvd, fun hdvd => hdvd hscalar⟩
  · rw [placeOf, argSize, if_neg hscalar, if_neg hscalar, alignPointer_eq]
    exact ⟨fun _ hscalar' => absurd hscalar' hscalar, fun _ => rfl⟩

theorem placesFrom_placedNaturally_iff (hargs : ∀ arg ∈ args, Passable arg) (offset : ℕ) :
    PlacedNaturally offset (args.map argSize) (placesFrom offset args) ↔
      ScalarsFollow offset args := by
  induction args generalizing offset with
  | nil => exact Iff.rfl
  | cons arg args ih =>
      obtain ⟨harg, hrest⟩ := List.forall_mem_cons.mp hargs
      have hpos := argSize_pos harg
      have hleast : IsLeast {place | offset ≤ place ∧ argSize arg ∣ place}
          (alignUp offset (argSize arg)) := alignUp_isLeast hpos
      rw [List.map_cons, placesFrom, PlacedNaturally, ScalarsFollow,
        ← placeOf_eq_alignUp_iff hpos]
      constructor
      · rintro ⟨hplace, htail⟩
        have heq := hplace.unique hleast
        rw [heq] at htail
        exact ⟨heq, (ih hrest _).mp htail⟩
      · rintro ⟨heq, htail⟩
        rw [heq]
        exact ⟨hleast, (ih hrest _).mpr htail⟩

end Offsets

section Packing

variable {memIndex : ℕ} {arg : LaunchArg} {args : List LaunchArg} {stores : List Store}

/-- The local memory of the arguments, from a pointer on. -/
def rangesFrom : BitVec 64 → List LaunchArg → List (ℕ × ℕ)
  | _, [] => []
  | pointer, arg :: args =>
      if arg.kinds.isLocal then
        (pointer.toNat, arg.captured.size) ::
          rangesFrom (pointer + BitVec.ofNat 64 arg.captured.size) args
      else
        rangesFrom pointer args

variable (memIndex) in
theorem passHsa_passable (hlocal : arg.kinds.isLocal = false) (harg : Passable arg) :
    ∃ passed, passHsa memIndex arg = some passed ∧
      ∀ pointer, passed ≠ .localPointer pointer := by
  unfold passHsa
  cases hpointer : arg.kinds.isPointer with
  | true =>
      refine ⟨_, rfl, fun pointer => ?_⟩
      cases arg.captured.value <;> simp [passBuffer]
  | false =>
      cases himage : arg.kinds.isImage with
      | true =>
          obtain ⟨mem, hmem⟩ := Option.ne_none_iff_exists'.mp (harg.image himage)
          exact ⟨.imageHandle mem, by simp [hmem], by simp⟩
      | false =>
          cases hstruct : arg.kinds.isStruct with
          | true => exact ⟨_, rfl, by simp⟩
          | false =>
              have hscalar : isScalar arg.kinds = true := by
                simp [isScalar, hlocal, hpointer, himage, hstruct]
              obtain ⟨bytes, hbytes⟩ :=
                Option.ne_none_iff_exists'.mp (harg.scalar hscalar).1
              exact ⟨.contents bytes, by simp [copyValue, hbytes], by simp⟩

variable (memIndex) in
/-- What one argument adds to the buffer. -/
theorem packArgument_spec (buffer : ArgumentBuffer) (harg : Passable arg) :
    ∃ contents,
      packArgument memIndex buffer arg = some
        { offset := placeOf buffer.offset arg + argSize arg
          stores := buffer.stores ++ [⟨placeOf buffer.offset arg, argSize arg, contents⟩]
          localPointer :=
            if arg.kinds.isLocal then
              buffer.localPointer + BitVec.ofNat 64 arg.captured.size
            else buffer.localPointer
          groupSegmentSize :=
            if arg.kinds.isLocal then
              buffer.groupSegmentSize + BitVec.ofNat 32 arg.current.size
            else buffer.groupSegmentSize } ∧
      (arg.kinds.isLocal = true → contents = .localPointer buffer.localPointer.toNat) ∧
      (arg.kinds.isLocal = false → ∀ pointer, contents ≠ .localPointer pointer) := by
  cases hlocal : arg.kinds.isLocal with
  | true =>
      have hscalar : isScalar arg.kinds = false := by simp [isScalar, hlocal]
      refine ⟨.localPointer buffer.localPointer.toNat, ?_, fun _ => rfl, by simp⟩
      simp [packArgument, placeOf, argSize, hlocal, hscalar]
  | false =>
      obtain ⟨passed, hpassed, hnot⟩ := passHsa_passable memIndex hlocal harg
      refine ⟨passed, ?_, by simp, fun _ => hnot⟩
      simp [packArgument, placeOf, hlocal, hpassed]

theorem localRanges_cons
    {store : Store} {buffer : BitVec 64}
    (hlocal : arg.kinds.isLocal = true → store.contents = .localPointer buffer.toNat)
    (hother : arg.kinds.isLocal = false → ∀ pointer, store.contents ≠ .localPointer pointer) :
    localRanges (arg :: args) (store :: stores) =
      if arg.kinds.isLocal then
        (buffer.toNat, arg.captured.size) :: localRanges args stores
      else localRanges args stores := by
  unfold localRanges
  rw [List.zip_cons_cons]
  cases hkind : arg.kinds.isLocal with
  | true =>
      have hrange : localRange arg store = some (buffer.toNat, arg.captured.size) := by
        rw [localRange, hlocal hkind]
      exact List.filterMap_cons_some hrange
  | false =>
      have hrange : localRange arg store = none := by
        rw [localRange]
        split
        next pointer heq => exact absurd heq (hother hkind pointer)
        next => rfl
      exact List.filterMap_cons_none hrange

structure Packed
    (buffer : ArgumentBuffer) (args : List LaunchArg) (result : ArgumentBuffer)
    (stores : List Store) : Prop where
  stores_eq : result.stores = buffer.stores ++ stores
  sizes : stores.map Store.size = args.map argSize
  places : stores.map Store.offset = placesFrom buffer.offset args
  ranges : localRanges args stores = rangesFrom buffer.localPointer args
  group : result.groupSegmentSize =
    buffer.groupSegmentSize + BitVec.ofNat 32 (currentLocalSize args)

variable (memIndex) in
theorem packArguments_spec (hargs : ∀ arg ∈ args, Passable arg) (buffer : ArgumentBuffer) :
    ∃ result stores, packArguments memIndex buffer args = some result ∧
      Packed buffer args result stores := by
  induction args generalizing buffer with
  | nil =>
      refine ⟨buffer, [], rfl, (List.append_nil _).symm, rfl, rfl, rfl, ?_⟩
      simp [currentLocalSize, localArgs]
  | cons arg args ih =>
      obtain ⟨harg, hrest⟩ := List.forall_mem_cons.mp hargs
      obtain ⟨contents, hpack, hlocal, hother⟩ :=
        packArgument_spec memIndex buffer harg
      obtain ⟨result, stores, hresult, hpacked⟩ := ih hrest _
      refine ⟨result, ⟨placeOf buffer.offset arg, argSize arg, contents⟩ :: stores,
        ?_, ?_, ?_, ?_, ?_, ?_⟩
      · rw [packArguments, List.foldlM_cons, hpack]
        exact hresult
      · rw [hpacked.stores_eq, List.append_assoc]
        rfl
      · rw [List.map_cons, List.map_cons, hpacked.sizes]
      · rw [List.map_cons, hpacked.places, placesFrom]
      · rw [localRanges_cons hlocal hother, hpacked.ranges, rangesFrom]
        cases arg.kinds.isLocal <;> rfl
      · rw [hpacked.group]
        cases hkind : arg.kinds.isLocal with
        | true => simp [currentLocalSize, localArgs, hkind, BitVec.ofNat_add, BitVec.add_assoc]
        | false => simp [currentLocalSize, localArgs, hkind]

end Packing

section Results

variable {args : List LaunchArg}

/-- No padding beyond the natural layout is ever made. -/
theorem placesFrom_inside
    (hargs : ∀ arg ∈ args, Passable arg) {offset stop : ℕ} (hle : offset ≤ stop) :
    ∀ place ∈ (placesFrom offset args).zip (args.map argSize),
      place.1 + place.2 ≤ naturalEnd stop (args.map argSize) := by
  induction args generalizing offset stop with
  | nil =>
      intro place hplace
      simp [placesFrom] at hplace
  | cons arg args ih =>
      obtain ⟨harg, hrest⟩ := List.forall_mem_cons.mp hargs
      have hplaced : placeOf offset arg ≤ alignUp stop (argSize arg) := placeOf_le_alignUp hle
      have hend := Nat.add_le_add_right hplaced (argSize arg)
      intro place hplace
      rw [placesFrom, List.map_cons, List.zip_cons_cons] at hplace
      rw [List.map_cons, naturalEnd]
      rcases List.mem_cons.mp hplace with rfl | htail
      · exact hend.trans (le_naturalEnd _ _)
      · exact ih hrest hend place htail

theorem store_inside
    {stores : List Store} {offset : ℕ} (hargs : ∀ arg ∈ args, Passable arg)
    (hsizes : stores.map Store.size = args.map argSize)
    (hplaces : stores.map Store.offset = placesFrom offset args)
    {store : Store} (hstore : store ∈ stores) :
    store.offset + store.size ≤ naturalEnd offset (args.map argSize) := by
  refine placesFrom_inside hargs le_rfl (store.offset, store.size) ?_
  rw [← hsizes, ← hplaces, List.zip_map']
  exact List.mem_map.mpr ⟨store, hstore, rfl⟩

theorem capturedLocalSize_cons (arg : LaunchArg) :
    capturedLocalSize (arg :: args) =
      (if arg.kinds.isLocal then arg.captured.size else 0) + capturedLocalSize args := by
  cases hkind : arg.kinds.isLocal with
  | true => simp [capturedLocalSize, localArgs, hkind]
  | false => simp [capturedLocalSize, localArgs, hkind]

/-- As long as the pointer does not wrap around, it goes up from one range to the next. -/
theorem rangesFrom_pairwise
    (args : List LaunchArg) (pointer : BitVec 64)
    (hfits : pointer.toNat + capturedLocalSize args < 2 ^ 64) :
    (∀ range ∈ rangesFrom pointer args, pointer.toNat ≤ range.1) ∧
      (rangesFrom pointer args).Pairwise fun first second =>
        first.1 + first.2 ≤ second.1 ∨ second.1 + second.2 ≤ first.1 := by
  induction args generalizing pointer with
  | nil => exact ⟨by simp [rangesFrom], List.Pairwise.nil⟩
  | cons arg args ih =>
      rw [capturedLocalSize_cons] at hfits
      rw [rangesFrom]
      cases hkind : arg.kinds.isLocal with
      | false =>
          rw [hkind] at hfits
          exact ih pointer (by simpa using hfits)
      | true =>
          rw [hkind, if_pos rfl, ← Nat.add_assoc] at hfits
          have hnext : (pointer + BitVec.ofNat 64 arg.captured.size).toNat =
              pointer.toNat + arg.captured.size := by
            have hsize : arg.captured.size < 2 ^ 64 := by omega
            rw [BitVec.toNat_add, BitVec.toNat_ofNat, Nat.mod_eq_of_lt hsize]
            exact Nat.mod_eq_of_lt (by omega)
          obtain ⟨habove, hpairwise⟩ := ih _ (by rw [hnext]; exact hfits)
          rw [hnext] at habove
          rw [if_pos rfl]
          refine ⟨fun range hrange => ?_, List.pairwise_cons.mpr ⟨fun range hrange => ?_,
            hpairwise⟩⟩
          · rcases List.mem_cons.mp hrange with rfl | htail
            · exact le_rfl
            · exact (Nat.le_add_right _ _).trans (habove range htail)
          · exact .inl (habove range hrange)

end Results

section Layout

variable {memIndex : ℕ} {descriptor : CodeDescriptor} {hsaArgCount : BitVec 32}
  {pc : PoclContext} {args : List LaunchArg} {kernelArgBuffer signal : BitVec 64}
  {queue : Queue}

theorem groupSegmentSize_eq_iff :
    (descriptor.workgroupGroupSegmentByteSize +
        BitVec.ofNat 32 (currentLocalSize args)).toNat =
      descriptor.workgroupGroupSegmentByteSize.toNat + capturedLocalSize args ↔
    LocalsCounted descriptor args := by
  have hsum : (descriptor.workgroupGroupSegmentByteSize +
      BitVec.ofNat 32 (currentLocalSize args)).toNat =
        (descriptor.workgroupGroupSegmentByteSize.toNat + currentLocalSize args) % 2 ^ 32 := by
    rw [BitVec.toNat_add, BitVec.toNat_ofNat, Nat.add_mod_mod]
  rw [hsum]
  constructor
  · intro heq
    have hlt := Nat.mod_lt
      (descriptor.workgroupGroupSegmentByteSize.toNat + currentLocalSize args)
      (Nat.two_pow_pos 32)
    refine ⟨heq ▸ hlt, Nat.ModEq.add_left_cancel'
      descriptor.workgroupGroupSegmentByteSize.toNat ?_⟩
    rw [Nat.ModEq, ← heq, Nat.mod_mod]
  · rintro ⟨hfits, hcurrent⟩
    have hmod := hcurrent.add_left descriptor.workgroupGroupSegmentByteSize.toNat
    rw [← Nat.mod_eq_of_lt hfits]
    exact hmod

theorem packsNaturally_iff (hargs : ∀ arg ∈ args, Passable arg) :
    (∃ stores packet after,
      poclHsaRun memIndex descriptor hsaArgCount pc args kernelArgBuffer signal queue =
        some (stores, packet, after) ∧
      PacksNaturally descriptor (hiddenPointers hsaArgCount args.length) args stores packet) ↔
    ScalarsFollow (8 * hiddenPointers hsaArgCount args.length) args ∧
      LocalsCounted descriptor args := by
  obtain ⟨result, stores, hresult, hpacked⟩ :=
    packArguments_spec memIndex hargs
      (initialBuffer descriptor hsaArgCount args.length)
  have hstores : result.stores = stores := by simpa [initialBuffer] using hpacked.stores_eq
  have hplaces : stores.map Store.offset =
      placesFrom (8 * hiddenPointers hsaArgCount args.length) args := hpacked.places
  have hranges : localRanges args stores =
      rangesFrom (descriptor.workgroupGroupSegmentByteSize.setWidth 64) args := hpacked.ranges
  have hgroup : result.groupSegmentSize = descriptor.workgroupGroupSegmentByteSize +
      BitVec.ofNat 32 (currentLocalSize args) := hpacked.group
  have hrun : poclHsaRun memIndex descriptor hsaArgCount pc args kernelArgBuffer signal
      queue = some (stores,
        dispatchPacket pc descriptor result.groupSegmentSize kernelArgBuffer signal,
        queue.dispatch
          (dispatchPacket pc descriptor result.groupSegmentSize kernelArgBuffer signal)) := by
    simp [poclHsaRun, hresult, hstores]
  constructor
  · rintro ⟨stores', packet, after, hrun', hnatural⟩
    obtain ⟨rfl, rfl, -⟩ : stores = stores' ∧ _ = packet ∧ _ = after := by
      simpa [hrun] using hrun'
    refine ⟨?_, ?_⟩
    · rw [← placesFrom_placedNaturally_iff hargs, ← hplaces]
      exact hnatural.placed
    · rw [← groupSegmentSize_eq_iff, ← hgroup]
      exact hnatural.groupSegmentSize
  · rintro ⟨hscalars, hlocals⟩
    have hstatic : (descriptor.workgroupGroupSegmentByteSize.setWidth 64).toNat =
        descriptor.workgroupGroupSegmentByteSize.toNat :=
      BitVec.toNat_setWidth_of_le (by decide)
    obtain ⟨habove, hpairwise⟩ := rangesFrom_pairwise args
      (descriptor.workgroupGroupSegmentByteSize.setWidth 64) (by
        have hfits := hlocals.fits
        rw [hstatic]
        omega)
    refine ⟨_, _, _, hrun, hpacked.sizes, ?_, ?_, ?_, ?_, ?_⟩
    · rw [hplaces, placesFrom_placedNaturally_iff hargs]
      exact hscalars
    · intro hsize store hstore
      rw [hsize]
      exact store_inside hargs hpacked.sizes hplaces hstore
    · rw [hranges]
      exact hpairwise
    · rw [hranges, ← hstatic]
      exact habove
    · change result.groupSegmentSize.toNat = _
      rw [hgroup]
      exact groupSegmentSize_eq_iff.mpr hlocals

end Layout

/-- A `char` before an `int`. -/
def scalarArg (bytes : List UInt8) : LaunchArg :=
  ⟨⟨false, false, false, false, false⟩, ⟨bytes.length, some bytes⟩,
    ⟨bytes.length, some bytes⟩⟩

def smallDescriptor : CodeDescriptor := ⟨0, 0, 8, 0⟩

def smallContext : PoclContext :=
  ⟨1, ⟨1, 1, 1⟩, ⟨0, 0, 0⟩, ⟨1, 1, 1⟩, ⟨1, 1, 1⟩⟩

def emptyQueue : Queue := ⟨16, 0, 0, fun _ => none⟩

theorem scalarArg_passable {bytes : List UInt8} {exponent : ℕ}
    (hlength : bytes.length = 2 ^ exponent) : Passable (scalarArg bytes) :=
  ⟨by simp [scalarArg], fun _ => ⟨by simp [scalarArg], exponent, hlength⟩⟩

/-- The `int` is stored at an offset of one. -/
theorem charBeforeInt_not_natural :
    ¬ ∃ stores packet after,
      poclHsaRun 0 smallDescriptor 2 smallContext [scalarArg [7], scalarArg [1, 0, 0, 0]] 0 0
        emptyQueue = some (stores, packet, after) ∧
      PacksNaturally smallDescriptor (hiddenPointers 2 2)
        [scalarArg [7], scalarArg [1, 0, 0, 0]] stores packet := by
  rintro ⟨stores, packet, after, hrun, hnatural⟩
  have hstores : (poclHsaRun 0 smallDescriptor 2 smallContext
      [scalarArg [7], scalarArg [1, 0, 0, 0]] 0 0 emptyQueue).map Prod.fst =
        some [⟨0, 1, .contents [7]⟩, ⟨1, 4, .contents [1, 0, 0, 0]⟩] := by
    rfl
  rw [hrun] at hstores
  obtain rfl := Option.some.inj hstores
  have hdvd : 4 ∣ 1 := hnatural.placed.2.1.1.2
  exact absurd hdvd (by decide)

theorem intBeforeChar_natural :
    ∃ stores packet after,
      poclHsaRun 0 smallDescriptor 2 smallContext [scalarArg [1, 0, 0, 0], scalarArg [7]] 0 0
        emptyQueue = some (stores, packet, after) ∧
      PacksNaturally smallDescriptor (hiddenPointers 2 2)
        [scalarArg [1, 0, 0, 0], scalarArg [7]] stores packet := by
  have hargs : ∀ arg ∈ [scalarArg [1, 0, 0, 0], scalarArg [7]], Passable arg := by
    intro arg harg
    simp only [List.mem_cons, List.not_mem_nil, or_false] at harg
    rcases harg with rfl | rfl
    · exact scalarArg_passable (show _ = 2 ^ 2 from rfl)
    · exact scalarArg_passable (show _ = 2 ^ 0 from rfl)
  refine (packsNaturally_iff hargs).mpr ⟨?_, by decide, rfl⟩
  exact ⟨fun _ => by decide, fun _ => one_dvd _, trivial⟩

end Pocl.HsaDispatch
