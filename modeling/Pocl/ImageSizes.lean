import Mathlib.Data.BitVec
import Mathlib.Data.Nat.Basic
import Mathlib.Tactic.Ring
import Pocl.ImageCreation

/-!
# The memory behind an image

The size of the buffer is computed from the width and the height only, and in an `int`.  So an
image has enough memory for its pitches when it has a single slice without any padding, and
when the size fits in an `int`.
-/

namespace Pocl.Images

section Images

variable (image : Image)

/-- The rows of a slice. -/
def Image.rows : ℕ :=
  match image.imageType with
  | .image1D | .image1DBuffer | .image1DArray => 1
  | .image2D | .image2DArray | .image3D => image.height.toNat

/-- The slices of a type of images that has slices. -/
def Image.slices : Option ℕ :=
  match image.imageType with
  | .image3D => some image.depth.toNat
  | .image1DArray | .image2DArray => some image.arraySize.toNat
  | .image1D | .image1DBuffer | .image2D => none

/-- The pitches hold the pixels, and the buffer holds the rows or the slices. -/
structure Image.HasMemory : Prop where
  row : image.width.toNat * pixelSize image.format ≤ image.rowPitch.toNat
  rows : image.slices = none → image.rowPitch.toNat * image.rows ≤ image.size.toNat
  slice : ∀ slices, image.slices = some slices →
    image.rowPitch.toNat * image.rows ≤ image.slicePitch.toNat
  slices : ∀ slices, image.slices = some slices →
    image.slicePitch.toNat * slices ≤ image.size.toNat

/-- The address of each byte of each pixel lies in the buffer. -/
def Image.BytesInside : Prop :=
  ∀ x < image.width.toNat, ∀ y < image.rows, ∀ z < image.slices.getD 1,
    ∀ byte < pixelSize image.format,
      x * pixelSize image.format + byte + image.rowPitch.toNat * y +
          (if image.slices = none then 0 else image.slicePitch.toNat * z) <
        image.size.toNat

theorem Image.HasMemory.bytesInside {image : Image} (hmemory : image.HasMemory) :
    image.BytesInside := by
  intro x hx y hy z hz byte hbyte
  have hpixel : x * pixelSize image.format + byte < image.rowPitch.toNat := by
    have hnext : (x + 1) * pixelSize image.format ≤ image.width.toNat * pixelSize image.format :=
      Nat.mul_le_mul_right _ hx
    have hrow := hmemory.row
    rw [Nat.add_mul, Nat.one_mul] at hnext
    omega
  have hrow : x * pixelSize image.format + byte + image.rowPitch.toNat * y <
      image.rowPitch.toNat * image.rows := by
    have hnext : image.rowPitch.toNat * (y + 1) ≤ image.rowPitch.toNat * image.rows :=
      Nat.mul_le_mul_left _ hy
    rw [Nat.mul_add, Nat.mul_one] at hnext
    omega
  cases hslices : image.slices with
  | none =>
      rw [if_pos rfl, Nat.add_zero]
      exact lt_of_lt_of_le hrow (hmemory.rows hslices)
  | some slices =>
      rw [if_neg (by simp)]
      rw [hslices, Option.getD_some] at hz
      have hnext : image.slicePitch.toNat * (z + 1) ≤ image.slicePitch.toNat * slices :=
        Nat.mul_le_mul_left _ hz
      have hslice := hmemory.slice _ hslices
      have htotal := hmemory.slices _ hslices
      rw [Nat.mul_add, Nat.mul_one] at hnext
      omega

end Images

section Words

theorem ofInt_toNat_of_lt {word : BitVec 32} (hlt : word.toNat < 2 ^ 31) :
    (ofInt word).toNat = word.toNat := by
  have hmsb : word.msb = false := by
    rw [BitVec.msb_eq_decide]
    simpa using hlt
  rw [ofInt, BitVec.signExtend_eq_setWidth_of_msb_false hmsb,
    BitVec.toNat_setWidth_of_le (by decide)]

theorem ofInt_lt {word : BitVec 32} (hlt : (ofInt word).toNat < 2 ^ 63) :
    word.toNat < 2 ^ 31 := by
  by_contra hle
  have hmsb : word.msb = true := by
    rw [BitVec.msb_eq_decide]
    simpa using hle
  rw [ofInt, BitVec.toNat_signExtend, hmsb, if_pos rfl,
    BitVec.toNat_setWidth_of_le (by decide)] at hlt
  omega

/-- A size that is kept in an `int`, read as a `size_t` again. -/
def throughInt (bytes : ℕ) : ℕ :=
  if bytes % 2 ^ 32 < 2 ^ 31 then bytes % 2 ^ 32 else bytes % 2 ^ 32 + (2 ^ 64 - 2 ^ 32)

theorem ofInt_toNat {word : BitVec 32} {bytes : ℕ} (hword : word.toNat = bytes % 2 ^ 32) :
    (ofInt word).toNat = throughInt bytes := by
  rw [throughInt, ← hword]
  split
  next hlt => exact ofInt_toNat_of_lt hlt
  next hle =>
    have hmsb : word.msb = true := by
      rw [BitVec.msb_eq_decide]
      simpa using hle
    rw [ofInt, BitVec.toNat_signExtend, hmsb, if_pos rfl,
      BitVec.toNat_setWidth_of_le (by decide)]

end Words

section Sizes

variable {desc : ImageDesc} {format : ImageFormat}

theorem imageSize_toNat :
    (imageSize desc format).toNat =
      desc.width.toNat * desc.height.toNat * pixelSize format % 2 ^ 32 := by
  simp only [imageSize, pixelSize, BitVec.toNat_setWidth, BitVec.toNat_mul,
    BitVec.toNat_ofNat, Nat.mod_mul_mod, Nat.mul_mod_mod]
  rw [Nat.mod_mod_of_dvd _ (by decide : 2 ^ 32 ∣ 2 ^ 64), Nat.mul_assoc (_ * _)]

/-- The row pitch before the conversion to `int`. -/
def rowBytes (desc : ImageDesc) (format : ImageFormat) : ℕ :=
  if desc.rowPitch.toNat % 2 ^ 32 = 0 then desc.width.toNat * pixelSize format
  else desc.rowPitch.toNat % 2 ^ 32

theorem rowPitch_toNat :
    (rowPitch desc format).toNat = rowBytes desc format % 2 ^ 32 := by
  have hgiven : desc.rowPitch.setWidth 32 = 0 ↔ desc.rowPitch.toNat % 2 ^ 32 = 0 := by
    rw [← BitVec.toNat_inj, BitVec.toNat_setWidth]
    rfl
  unfold rowPitch rowBytes
  by_cases hzero : desc.rowPitch.toNat % 2 ^ 32 = 0
  · rw [if_pos (hgiven.mpr hzero), if_pos hzero]
    simp only [pixelSize, BitVec.toNat_setWidth, BitVec.toNat_mul, BitVec.toNat_ofNat,
      Nat.mod_mul_mod, Nat.mul_mod_mod]
    rw [Nat.mod_mod_of_dvd _ (by decide : 2 ^ 32 ∣ 2 ^ 64), Nat.mul_assoc]
  · rw [if_neg (mt hgiven.mp hzero), if_neg hzero, BitVec.toNat_setWidth, Nat.mod_mod]

/-- The slice pitch before the conversion to `int`. -/
def sliceBytes (desc : ImageDesc) (format : ImageFormat) : ℕ :=
  if desc.slicePitch.toNat % 2 ^ 32 = 0 then
    match desc.imageType with
    | .image3D | .image2DArray => rowBytes desc format * desc.height.toNat
    | .image1DArray => rowBytes desc format
    | _ => 0
  else desc.slicePitch.toNat % 2 ^ 32

theorem ofInt_mul_setWidth (word : BitVec 32) (size : SizeT) :
    ((ofInt word * size).setWidth 32).toNat = word.toNat * size.toNat % 2 ^ 32 := by
  have hlow : (ofInt word).toNat % 2 ^ 32 = word.toNat := by
    have hlt := word.isLt
    rw [ofInt, BitVec.toNat_signExtend, BitVec.toNat_setWidth_of_le (by decide)]
    split
    next => omega
    next => omega
  rw [BitVec.toNat_setWidth, BitVec.toNat_mul, Nat.mod_mod_of_dvd _ (by decide : 2 ^ 32 ∣ 2 ^ 64),
    Nat.mul_mod, hlow, Nat.mul_mod_mod]

theorem slicePitch_toNat :
    (slicePitch desc format).toNat = sliceBytes desc format % 2 ^ 32 := by
  have hgiven : desc.slicePitch.setWidth 32 = 0 ↔ desc.slicePitch.toNat % 2 ^ 32 = 0 := by
    rw [← BitVec.toNat_inj, BitVec.toNat_setWidth]
    rfl
  have hrows : ((ofInt (rowPitch desc format) * desc.height).setWidth 32).toNat =
      rowBytes desc format * desc.height.toNat % 2 ^ 32 := by
    rw [ofInt_mul_setWidth, rowPitch_toNat, Nat.mod_mul_mod]
  unfold slicePitch sliceBytes
  by_cases hzero : desc.slicePitch.toNat % 2 ^ 32 = 0
  · simp only [if_pos (hgiven.mpr hzero), if_pos hzero]
    cases desc.imageType with
    | image3D => exact hrows
    | image2DArray => exact hrows
    | image1DArray => exact rowPitch_toNat
    | image1D => rfl
    | image1DBuffer => rfl
    | image2D => rfl
  · rw [if_neg (mt hgiven.mp hzero), if_neg hzero, BitVec.toNat_setWidth, Nat.mod_mod]

end Sizes

section Created

variable {context : ImageContext} {accepted : Bool} {format : ImageFormat} {desc : ImageDesc}
  {image : Image}

/-- The size that `clCreateBuffer` gets for the image. -/
def areaBytes (desc : ImageDesc) (format : ImageFormat) : ℕ :=
  desc.width.toNat * desc.height.toNat * pixelSize format % 2 ^ 32

theorem one_le_height (hpos : 0 < areaBytes desc format) : 1 ≤ desc.height.toNat := by
  refine Nat.pos_of_ne_zero fun hzero => ?_
  rw [areaBytes, hzero, Nat.mul_zero, Nat.zero_mul] at hpos
  exact absurd hpos (by decide)

theorem clCreateImage_created
    (hcreated : clCreateImage context accepted format desc = .created image) :
    image = makeImage desc format ∧ 0 < areaBytes desc format ∧
      areaBytes desc format < 2 ^ 31 ∧ image.size.toNat = areaBytes desc format := by
  unfold clCreateImage at hcreated
  split_ifs at hcreated with _ _ _ _ hbuffer
  obtain rfl := ImageOutcome.created.inj hcreated
  simp only [createsBuffer, Bool.and_eq_true, decide_eq_true_eq, List.all_cons] at hbuffer
  obtain ⟨⟨hsize, hmax, -⟩, -⟩ := hbuffer
  have hlt : (imageSize desc format).toNat < 2 ^ 31 :=
    ofInt_lt (lt_of_le_of_lt hmax context.first.maxMemAllocSize_lt)
  have harea : (imageSize desc format).toNat = areaBytes desc format := imageSize_toNat
  refine ⟨rfl, ?_, by rwa [← harea], ?_⟩
  · rw [← harea]
    refine Nat.pos_of_ne_zero fun hzero => hsize ?_
    rw [BitVec.eq_of_toNat_eq (show (imageSize desc format).toNat = (0 : BitVec 32).toNat
      from hzero)]
    rfl
  · rw [← harea]
    exact ofInt_toNat_of_lt hlt

end Created

section Pitches

variable {desc : ImageDesc} {format : ImageFormat} {word : BitVec 32} {bytes rows slices : ℕ}

/-- A value that is not changed by the conversion to `int`. -/
theorem ofInt_toNat_eq (hword : word.toNat = bytes % 2 ^ 32) (hbytes : bytes < 2 ^ 31) :
    (ofInt word).toNat = bytes := by
  rw [Nat.mod_eq_of_lt (by omega)] at hword
  rw [ofInt_toNat_of_lt (by omega), hword]

/-- A small result comes from the value itself, unless the value has wrapped around. -/
theorem eq_of_ofInt_toNat_lt
    (hword : word.toNat = bytes % 2 ^ 32) (hsmall : (ofInt word).toNat < 2 ^ 31)
    (hbytes : bytes < 2 ^ 32 ∨ bytes ≤ (ofInt word).toNat) : (ofInt word).toNat = bytes := by
  have hlt : word.toNat < 2 ^ 31 := ofInt_lt (hsmall.trans (by decide))
  rw [ofInt_toNat_of_lt hlt] at hbytes ⊢
  rcases hbytes with hbytes | hbytes
  · rw [hword, Nat.mod_eq_of_lt hbytes]
  · rw [hword, Nat.mod_eq_of_lt (by omega)]

theorem rowPitch_eq_of_lt
    (hsmall : (ofInt (rowPitch desc format)).toNat < 2 ^ 31)
    (hrow : desc.width.toNat * pixelSize format ≤ (ofInt (rowPitch desc format)).toNat) :
    (ofInt (rowPitch desc format)).toNat = rowBytes desc format := by
  refine eq_of_ofInt_toNat_lt rowPitch_toNat hsmall ?_
  rw [rowBytes]
  split
  next => exact .inr hrow
  next => exact .inl (Nat.mod_lt _ (by decide))

/-- The rows fit in a size that is an `int`. -/
theorem rows_fit_iff {size : ℕ} (hrows : 1 ≤ rows) (hsize : size < 2 ^ 31) :
    (desc.width.toNat * pixelSize format ≤ (ofInt (rowPitch desc format)).toNat ∧
        (ofInt (rowPitch desc format)).toNat * rows ≤ size) ↔
      desc.width.toNat * pixelSize format ≤ rowBytes desc format ∧
        rowBytes desc format * rows ≤ size := by
  constructor
  · rintro ⟨hrow, htotal⟩
    have hle := Nat.le_mul_of_pos_right (ofInt (rowPitch desc format)).toNat hrows
    have heq := rowPitch_eq_of_lt (hle.trans_lt (htotal.trans_lt hsize)) hrow
    rw [heq] at hrow htotal
    exact ⟨hrow, htotal⟩
  · rintro ⟨hrow, htotal⟩
    have hle := Nat.le_mul_of_pos_right (rowBytes desc format) hrows
    rw [ofInt_toNat_eq rowPitch_toNat (hle.trans_lt (htotal.trans_lt hsize))]
    exact ⟨hrow, htotal⟩

/-- The slices fit in a size that is an `int`. -/
theorem slices_fit_iff
    {size : ℕ} (hrows : 1 ≤ rows) (hslices : 1 ≤ slices) (hsize : size < 2 ^ 31)
    (hdefault : sliceBytes desc format < 2 ^ 32 ∨
      sliceBytes desc format = rowBytes desc format * rows) :
    ((desc.width.toNat * pixelSize format ≤ (ofInt (rowPitch desc format)).toNat ∧
        (ofInt (rowPitch desc format)).toNat * rows ≤ (ofInt (slicePitch desc format)).toNat) ∧
      (ofInt (slicePitch desc format)).toNat * slices ≤ size) ↔
    (desc.width.toNat * pixelSize format ≤ rowBytes desc format ∧
        rowBytes desc format * rows ≤ sliceBytes desc format) ∧
      sliceBytes desc format * slices ≤ size := by
  constructor
  · rintro ⟨hpitches, htotal⟩
    have hle := Nat.le_mul_of_pos_right (ofInt (slicePitch desc format)).toNat hslices
    have hsmall := hle.trans_lt (htotal.trans_lt hsize)
    have hrow := (rows_fit_iff hrows hsmall).mp hpitches
    have heq := eq_of_ofInt_toNat_lt slicePitch_toNat hsmall (hdefault.imp_right fun hrowBytes => by
      rw [hrowBytes]
      exact hrow.2)
    rw [heq] at hrow htotal
    exact ⟨hrow, htotal⟩
  · rintro ⟨hpitches, htotal⟩
    have hle := Nat.le_mul_of_pos_right (sliceBytes desc format) hslices
    have hsmall := hle.trans_lt (htotal.trans_lt hsize)
    have heq := ofInt_toNat_eq slicePitch_toNat hsmall
    rw [← heq] at hpitches htotal hsmall
    exact ⟨(rows_fit_iff hrows hsmall).mpr hpitches, htotal⟩

/-- The rows follow one another, and their size is an `int`. -/
def ExactRows (desc : ImageDesc) (format : ImageFormat) : Prop :=
  desc.width.toNat * desc.height.toNat * pixelSize format < 2 ^ 31 ∧
    (desc.rowPitch.toNat % 2 ^ 32 = 0 ∨
      desc.rowPitch.toNat % 2 ^ 32 = desc.width.toNat * pixelSize format)

theorem exactRows_iff
    (hpos : 0 < areaBytes desc format) (hsize : areaBytes desc format < 2 ^ 31) :
    (desc.width.toNat * pixelSize format ≤ rowBytes desc format ∧
        rowBytes desc format * desc.height.toNat ≤ areaBytes desc format) ↔
      ExactRows desc format := by
  have hheight := one_le_height hpos
  have hcomm : desc.width.toNat * pixelSize format * desc.height.toNat =
      desc.width.toNat * desc.height.toNat * pixelSize format := by
    ring
  constructor
  · rintro ⟨hrow, htotal⟩
    have hmod : areaBytes desc format ≤
        desc.width.toNat * desc.height.toNat * pixelSize format := Nat.mod_le _ _
    have hle := Nat.mul_le_mul_right desc.height.toNat hrow
    rw [hcomm] at hle
    refine ⟨by omega, ?_⟩
    -- The product of the pitch and the height leaves no room for padding.
    have hpitch : rowBytes desc format = desc.width.toNat * pixelSize format := by
      refine le_antisymm (Nat.le_of_mul_le_mul_right ?_ hheight) hrow
      rw [hcomm]
      omega
    rw [rowBytes] at hpitch
    split at hpitch
    next hzero => exact .inl hzero
    next => exact .inr hpitch
  · rintro ⟨hfits, hpitch⟩
    have hpitch' : rowBytes desc format = desc.width.toNat * pixelSize format := by
      rw [rowBytes]
      split
      next => rfl
      next hzero => exact hpitch.resolve_left hzero
    rw [hpitch', hcomm, areaBytes, Nat.mod_eq_of_lt (by omega)]
    exact ⟨le_rfl, le_rfl⟩

/-- There is one slice, without padding behind it. -/
def ExactSlice (desc : ImageDesc) (format : ImageFormat) (slices : ℕ) : Prop :=
  slices = 1 ∧ ExactRows desc format ∧
    (desc.slicePitch.toNat % 2 ^ 32 = 0 ∨
      desc.slicePitch.toNat % 2 ^ 32 =
        desc.width.toNat * desc.height.toNat * pixelSize format)

theorem exactSlice_iff
    (hpos : 0 < areaBytes desc format) (hsize : areaBytes desc format < 2 ^ 31)
    (hslices : 1 ≤ slices) (hdefault : desc.slicePitch.toNat % 2 ^ 32 = 0 →
      sliceBytes desc format = rowBytes desc format * desc.height.toNat) :
    ((desc.width.toNat * pixelSize format ≤ rowBytes desc format ∧
        rowBytes desc format * desc.height.toNat ≤ sliceBytes desc format) ∧
      sliceBytes desc format * slices ≤ areaBytes desc format) ↔
    ExactSlice desc format slices := by
  have hcomm : desc.width.toNat * pixelSize format * desc.height.toNat =
      desc.width.toNat * desc.height.toNat * pixelSize format := by
    ring
  have hgiven : desc.slicePitch.toNat % 2 ^ 32 ≠ 0 →
      sliceBytes desc format = desc.slicePitch.toNat % 2 ^ 32 := fun hne => if_neg hne
  constructor
  · rintro ⟨⟨hrow, hslice⟩, htotal⟩
    have hle := Nat.le_mul_of_pos_right (sliceBytes desc format) hslices
    have hexact := (exactRows_iff hpos hsize).mp ⟨hrow, hslice.trans (hle.trans htotal)⟩
    have harea : areaBytes desc format =
        desc.width.toNat * desc.height.toNat * pixelSize format :=
      Nat.mod_eq_of_lt (hexact.1.trans (by decide))
    have hrows := Nat.mul_le_mul_right desc.height.toNat hrow
    rw [hcomm, ← harea] at hrows
    have hsliceEq : sliceBytes desc format = areaBytes desc format := by omega
    refine ⟨?_, hexact, ?_⟩
    · rw [hsliceEq] at htotal
      have hone := Nat.le_of_mul_le_mul_left (htotal.trans (Nat.mul_one _).ge) hpos
      omega
    · by_cases hzero : desc.slicePitch.toNat % 2 ^ 32 = 0
      · exact .inl hzero
      · rw [← hgiven hzero, hsliceEq]
        exact .inr harea
  · rintro ⟨rfl, hexact, hslice⟩
    obtain ⟨hrow, htotal⟩ := (exactRows_iff hpos hsize).mpr hexact
    have harea : areaBytes desc format =
        desc.width.toNat * desc.height.toNat * pixelSize format :=
      Nat.mod_eq_of_lt (hexact.1.trans (by decide))
    rw [Nat.mul_one]
    by_cases hzero : desc.slicePitch.toNat % 2 ^ 32 = 0
    · rw [hdefault hzero]
      exact ⟨⟨hrow, le_rfl⟩, htotal⟩
    · rw [hgiven hzero, hslice.resolve_left hzero, ← harea]
      exact ⟨⟨hrow, htotal⟩, le_rfl⟩

end Pitches

section Memory

variable {context : ImageContext} {accepted : Bool} {format : ImageFormat} {desc : ImageDesc}
  {image : Image}

theorem Image.hasMemory_iff_of_none (hslices : image.slices = none) :
    image.HasMemory ↔
      image.width.toNat * pixelSize image.format ≤ image.rowPitch.toNat ∧
        image.rowPitch.toNat * image.rows ≤ image.size.toNat := by
  constructor
  · exact fun hmemory => ⟨hmemory.row, hmemory.rows hslices⟩
  · rintro ⟨hrow, hrows⟩
    refine ⟨hrow, fun _ => hrows, fun slices heq => ?_, fun slices heq => ?_⟩
    · rw [hslices] at heq
      cases heq
    · rw [hslices] at heq
      cases heq

theorem Image.hasMemory_iff_of_some {slices : ℕ} (hslices : image.slices = some slices) :
    image.HasMemory ↔
      (image.width.toNat * pixelSize image.format ≤ image.rowPitch.toNat ∧
        image.rowPitch.toNat * image.rows ≤ image.slicePitch.toNat) ∧
        image.slicePitch.toNat * slices ≤ image.size.toNat := by
  constructor
  · exact fun hmemory =>
      ⟨⟨hmemory.row, hmemory.slice slices hslices⟩, hmemory.slices slices hslices⟩
  · rintro ⟨⟨hrow, hslice⟩, htotal⟩
    refine ⟨hrow, fun heq => ?_, fun _ _ => hslice, fun other heq => ?_⟩
    · rw [hslices] at heq
      cases heq
    · rw [hslices, Option.some.injEq] at heq
      rwa [← heq]

/-- The pitches, given or by default, hold a row and a slice when they have been an `int`. -/
def StoredPitches (desc : ImageDesc) (format : ImageFormat) (rows : ℕ) : Prop :=
  desc.width.toNat * pixelSize format ≤ throughInt (rowBytes desc format) ∧
    throughInt (rowBytes desc format) * rows ≤ throughInt (sliceBytes desc format)

theorem storedPitches_iff (rows : ℕ) :
    StoredPitches desc format rows ↔
      desc.width.toNat * pixelSize format ≤ (ofInt (rowPitch desc format)).toNat ∧
        (ofInt (rowPitch desc format)).toNat * rows ≤ (ofInt (slicePitch desc format)).toNat := by
  rw [ofInt_toNat rowPitch_toNat, ofInt_toNat slicePitch_toNat]
  rfl

/-- When the size that is computed is enough. -/
def SizeSuffices (desc : ImageDesc) (format : ImageFormat) : Prop :=
  match desc.imageType with
  | .image1D | .image1DBuffer =>
      desc.width.toNat * pixelSize format ≤ rowBytes desc format ∧
        rowBytes desc format ≤ areaBytes desc format
  | .image2D => ExactRows desc format
  | .image1DArray =>
      (desc.arraySize.toNat = 0 ∧ StoredPitches desc format 1) ∨
        (1 ≤ desc.arraySize.toNat ∧
          (desc.width.toNat * pixelSize format ≤ rowBytes desc format ∧
            rowBytes desc format ≤ sliceBytes desc format) ∧
          sliceBytes desc format * desc.arraySize.toNat ≤ areaBytes desc format)
  | .image2DArray =>
      (desc.arraySize.toNat = 0 ∧ StoredPitches desc format desc.height.toNat) ∨
        ExactSlice desc format desc.arraySize.toNat
  | .image3D =>
      (desc.depth.toNat = 0 ∧ StoredPitches desc format desc.height.toNat) ∨
        ExactSlice desc format desc.depth.toNat

/-- The slices of an image with full rows. -/
theorem exactSlices_suffice_iff
    {slices : ℕ} (hpos : 0 < areaBytes desc format) (hsize : areaBytes desc format < 2 ^ 31)
    (hdefault : desc.slicePitch.toNat % 2 ^ 32 = 0 →
      sliceBytes desc format = rowBytes desc format * desc.height.toNat) :
    (StoredPitches desc format desc.height.toNat ∧
        (ofInt (slicePitch desc format)).toNat * slices ≤ areaBytes desc format) ↔
      (slices = 0 ∧ StoredPitches desc format desc.height.toNat) ∨
        ExactSlice desc format slices := by
  have hheight := one_le_height hpos
  by_cases hslices : slices = 0
  · have hnot : ¬ ExactSlice desc format slices := by
      rintro ⟨hone, -⟩
      omega
    rw [or_iff_left hnot, hslices, Nat.mul_zero]
    simp
  · have hwrap : sliceBytes desc format < 2 ^ 32 ∨
        sliceBytes desc format = rowBytes desc format * desc.height.toNat := by
      by_cases hzero : desc.slicePitch.toNat % 2 ^ 32 = 0
      · exact .inr (hdefault hzero)
      · rw [sliceBytes, if_neg hzero]
        exact .inl (Nat.mod_lt _ (by decide))
    rw [storedPitches_iff, slices_fit_iff hheight (Nat.pos_of_ne_zero hslices) hsize hwrap,
      exactSlice_iff hpos hsize (Nat.pos_of_ne_zero hslices) hdefault]
    simp [hslices]

/-- The size leaves out the slices and the padding. -/
theorem clCreateImage_hasMemory_iff
    (hcreated : clCreateImage context accepted format desc = .created image) :
    image.HasMemory ∧ image.BytesInside ↔ SizeSuffices desc format := by
  rw [and_iff_left_of_imp Image.HasMemory.bytesInside]
  obtain ⟨rfl, hpos, hsize, harea⟩ := clCreateImage_created hcreated
  unfold SizeSuffices
  have hflat : ∀ rows, 1 ≤ rows →
      (makeImage desc format).slices = none → (makeImage desc format).rows = rows →
        ((makeImage desc format).HasMemory ↔
          desc.width.toNat * pixelSize format ≤ rowBytes desc format ∧
            rowBytes desc format * rows ≤ areaBytes desc format) := by
    intro rows hrows hslices heq
    rw [Image.hasMemory_iff_of_none hslices, heq, harea]
    exact rows_fit_iff hrows hsize
  have hlayered : ∀ slices rows, (makeImage desc format).slices = some slices →
      (makeImage desc format).rows = rows →
        ((makeImage desc format).HasMemory ↔
          StoredPitches desc format rows ∧
            (ofInt (slicePitch desc format)).toNat * slices ≤ areaBytes desc format) := by
    intro slices rows hslices heq
    rw [Image.hasMemory_iff_of_some hslices, heq, harea, storedPitches_iff]
    rfl
  have hheight := one_le_height hpos
  cases htype : desc.imageType with
  | image1D =>
      rw [hflat 1 le_rfl (by simp [Image.slices, makeImage, htype])
        (by simp [Image.rows, makeImage, htype]), Nat.mul_one]
  | image1DBuffer =>
      rw [hflat 1 le_rfl (by simp [Image.slices, makeImage, htype])
        (by simp [Image.rows, makeImage, htype]), Nat.mul_one]
  | image2D =>
      rw [hflat desc.height.toNat hheight (by simp [Image.slices, makeImage, htype])
        (by simp [Image.rows, makeImage, htype])]
      exact exactRows_iff hpos hsize
  | image1DArray =>
      rw [hlayered desc.arraySize.toNat 1 (by simp [Image.slices, makeImage, htype])
        (by simp [Image.rows, makeImage, htype])]
      by_cases hslices : desc.arraySize.toNat = 0
      · rw [hslices, Nat.mul_zero]
        simp
      · have hwrap : sliceBytes desc format < 2 ^ 32 ∨
            sliceBytes desc format = rowBytes desc format * 1 := by
          rw [sliceBytes, htype, Nat.mul_one]
          split
          next => exact .inr rfl
          next => exact .inl (Nat.mod_lt _ (by decide))
        rw [storedPitches_iff, slices_fit_iff le_rfl (Nat.pos_of_ne_zero hslices) hsize hwrap,
          Nat.mul_one, or_iff_right fun hempty => hslices hempty.1,
          and_iff_right (show 1 ≤ desc.arraySize.toNat from Nat.pos_of_ne_zero hslices)]
  | image2DArray =>
      rw [hlayered desc.arraySize.toNat desc.height.toNat
        (by simp [Image.slices, makeImage, htype]) (by simp [Image.rows, makeImage, htype])]
      exact exactSlices_suffice_iff hpos hsize fun hzero => by
        rw [sliceBytes, if_pos hzero, htype]
  | image3D =>
      rw [hlayered desc.depth.toNat desc.height.toNat
        (by simp [Image.slices, makeImage, htype]) (by simp [Image.rows, makeImage, htype])]
      exact exactSlices_suffice_iff hpos hsize fun hzero => by
        rw [sliceBytes, if_pos hzero, htype]

def oneDevice (format : ImageFormat) : ImageContext where
  hsaRuntime := false
  first := ⟨[format], 2 ^ 30, by decide⟩
  others := []

/-- Four columns and four rows, without pitches. -/
def squareDesc (imageType : ImageType) (depth : SizeT) : ImageDesc where
  imageType := imageType
  width := 4
  height := 4
  depth := depth
  arraySize := 0
  rowPitch := 0
  slicePitch := 0
  numMipLevels := 0
  numSamples := 0

def rgbaFloat : ImageFormat := ⟨.rgba, .float⟩

theorem square_hasMemory :
    (makeImage (squareDesc .image2D 0) rgbaFloat).HasMemory ∧
      (makeImage (squareDesc .image2D 0) rgbaFloat).BytesInside :=
  (@clCreateImage_hasMemory_iff (oneDevice rgbaFloat) true rgbaFloat (squareDesc .image2D 0) _
    (by decide)).mpr ⟨by decide, .inl (by decide)⟩

/-- The buffer has room for one of the four slices. -/
theorem cube_not_hasMemory :
    clCreateImage (oneDevice rgbaFloat) true rgbaFloat (squareDesc .image3D 4) =
        .created (makeImage (squareDesc .image3D 4) rgbaFloat) ∧
      ¬ (makeImage (squareDesc .image3D 4) rgbaFloat).HasMemory := by
  refine ⟨by decide, fun hmemory => ?_⟩
  exact absurd (hmemory.slices 4 rfl) (by decide)

end Memory

end Pocl.Images
