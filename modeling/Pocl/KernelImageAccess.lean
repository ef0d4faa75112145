import Pocl.ImageRoundTrips

/-!
# Images in kernels

The drivers that run kernels on the host copy the row pitch, in bytes, into the descriptor
that `read_imagef` and `write_imagef` get, where it counts elements of 16 bytes.  The builtins
compute with values of type `int`.

A position is the distance in bytes from the start of the image's buffer.
-/

namespace Pocl.KernelImages

open Pocl.Images RectTransfers ByteCopies KernelArguments

/-- The fields of `dev_image2d_t` that the builtins read. -/
structure DevImage2d where
  width : ℤ
  height : ℤ
  rowpitch : ℤ

/-- The descriptor that `pocl_basic_run` and the threads of the pthread driver write. -/
def devImage2d (image : Image) : DevImage2d where
  width := toInt image.width
  height := toInt image.height
  rowpitch := toInt image.rowPitch

/-- A sum of two values of type `int`. -/
def intAdd (first second : ℤ) : Option ℤ :=
  if -2 ^ 31 ≤ first + second ∧ first + second < 2 ^ 31 then some (first + second) else none

/-- The position of the element `((float4*)image->data)[x + y * image->rowpitch]`. -/
def elementPosition (image : DevImage2d) (x y : ℤ) : Option ℤ := do
  let row ← intMul y image.rowpitch
  let index ← intAdd x row
  return 16 * index

def writeImagefPosition (image : DevImage2d) (x y : ℤ) : Option ℤ :=
  elementPosition image x y

/-- The coordinates are clamped before a read. -/
def readImagefPosition (image : DevImage2d) (x y : ℤ) : Option ℤ :=
  let x := if x < 0 then 0 else x
  let y := if y < 0 then 0 else y
  let x := if image.width ≤ x then image.width - 1 else x
  let y := if image.height ≤ y then image.height - 1 else y
  elementPosition image x y

section Memory

/-- The bytes of a `float4`, by their index. -/
abbrev Color := ℕ → UInt8

def storeColor (device : SizeT → UInt8) (position : ℤ) (color : Color) : SizeT → UInt8 :=
  fun address =>
    if (address - BitVec.ofInt 64 position).toNat < 16 then
      color (address - BitVec.ofInt 64 position).toNat
    else device address

def loadColor (device : SizeT → UInt8) (position : ℤ) : Color :=
  fun byte => device (BitVec.ofInt 64 position + BitVec.ofNat 64 byte)

def writeImagef (image : DevImage2d) (x y : ℤ) (color : Color) (device : SizeT → UInt8) :
    Option (SizeT → UInt8) :=
  (writeImagefPosition image x y).map fun position => storeColor device position color

def readImagef (image : DevImage2d) (x y : ℤ) (device : SizeT → UInt8) : Option Color :=
  (readImagefPosition image x y).map fun position => loadColor device position

theorem loadColor_storeColor (device : SizeT → UInt8) (position : ℤ) (color : Color) {byte : ℕ}
    (hbyte : byte < 16) : loadColor (storeColor device position color) position byte =
      color byte := by
  have hoffset : (BitVec.ofInt 64 position + BitVec.ofNat 64 byte -
      BitVec.ofInt 64 position).toNat = byte := by
    rw [BitVec.add_comm, BitVec.add_sub_cancel, BitVec.toNat_ofNat]
    omega
  rw [loadColor, storeColor, hoffset, if_pos hbyte]

end Memory

/-- A coordinate of type `int` inside the image. -/
structure InImage (image : Image) (x y : ℤ) : Prop where
  x_nonneg : 0 ≤ x
  x_lt : x < image.width.toNat
  x_int : x < 2 ^ 31
  y_nonneg : 0 ≤ y
  y_lt : y < image.height.toNat
  y_int : y < 2 ^ 31

/-- Where the pixel is in the image's buffer. -/
def pixelPosition (image : Image) (x y : ℤ) : ℤ :=
  y * image.rowPitch.toNat + 16 * x

/-- The builtins access the pixels, and nothing else. -/
structure AccessesPixels (image : Image) (driver : Driver) : Prop where
  write_position : ∀ x y, InImage image x y →
    writeImagefPosition (devImage2d image) x y = some (pixelPosition image x y)
  read_position : ∀ x y, InImage image x y →
    readImagefPosition (devImage2d image) x y = some (pixelPosition image x y)
  distinct : ∀ x y x' y', InImage image x y → InImage image x' y' →
    writeImagefPosition (devImage2d image) x y = writeImagefPosition (devImage2d image) x' y' →
      x = x' ∧ y = y'
  inside : ∀ x y, InImage image x y → ∀ position,
    writeImagefPosition (devImage2d image) x y = some position →
      0 ≤ position ∧ position + 16 ≤ image.size.toNat
  read_back : ∀ x y, InImage image x y → ∀ color device,
    ∃ written, writeImagef (devImage2d image) x y color device = some written ∧
      (∃ loaded, readImagef (devImage2d image) x y written = some loaded ∧
        ∀ byte < 16, loaded byte = color byte) ∧
      ∃ rows, poclReadImage driver image (pixelOrigin x.toNat y.toNat 0) ⟨1, 1, 1⟩ =
          .success rows ∧
        ∀ (out : SizeT → UInt8) (byte : ℕ), byte < 16 →
          moveAll (rows.flatMap RowCopy.bytes) written out
            (BitVec.ofNat 64 (image.byteOffset x.toNat y.toNat 0 byte)) = color byte

section Accesses

variable {context : ImageContext} {accepted : Bool} {desc : ImageDesc} {image : Image}
  {driver : Driver}

theorem ofInt_toNat (word : BitVec 32) :
    (ofInt word).toNat = word.toNat + if 2 ^ 31 ≤ word.toNat then 2 ^ 64 - 2 ^ 32 else 0 := by
  have hlt := word.isLt
  rw [ofInt, BitVec.toNat_signExtend, BitVec.toNat_setWidth, BitVec.msb_eq_decide,
    Nat.mod_eq_of_lt (hlt.trans (by decide))]
  simp only [decide_eq_true_eq]

theorem toInt_ofInt (word : BitVec 32) : toInt (ofInt word) = word.toInt := by
  have hlt := word.isLt
  have hword : (ofInt word).setWidth 32 = word := by
    refine BitVec.eq_of_toNat_eq ?_
    rw [BitVec.toNat_setWidth, ofInt_toNat]
    split <;> omega
  rw [toInt, hword]

theorem elementPosition_first_row (image : DevImage2d) {x : ℤ} (hnonneg : 0 ≤ x)
    (hint : x < 2 ^ 31) : elementPosition image x 0 = some (16 * x) := by
  have hrow : intMul 0 image.rowpitch = some 0 := by
    rw [intMul, zero_mul]
    rfl
  have hindex : intAdd x 0 = some x := by
    rw [intAdd, add_zero, if_pos ⟨by omega, hint⟩]
  simp only [elementPosition, hrow, hindex, Option.bind_eq_bind, Option.bind_some]
  rfl

theorem elementPosition_second_row (word : BitVec 32) (width height : ℤ) :
    elementPosition ⟨width, height, word.toInt⟩ 0 1 = some (16 * word.toInt) := by
  have hlower := word.le_toInt
  have hupper := word.toInt_lt
  have hrow : intMul 1 word.toInt = some word.toInt := by
    rw [intMul, one_mul, if_pos ⟨by omega, by omega⟩]
  have hindex : intAdd 0 word.toInt = some word.toInt := by
    rw [intAdd, zero_add, if_pos ⟨by omega, by omega⟩]
  simp only [elementPosition, hrow, hindex, Option.bind_eq_bind, Option.bind_some]
  rfl

theorem ofInt_toNat_eq_zero {word : BitVec 32} (hsame : 16 * word.toInt = (ofInt word).toNat) :
    (ofInt word).toNat = 0 := by
  have hlt := word.isLt
  rw [ofInt_toNat] at hsame ⊢
  rw [BitVec.toInt_eq_toNat_cond] at hsame
  by_cases hnegative : 2 ^ 31 ≤ word.toNat
  · rw [if_pos hnegative, if_neg (by omega)] at hsame
    omega
  · rw [if_neg hnegative, if_pos (by omega)] at hsame
    rw [if_neg hnegative]
    omega

/-- The rows of a created image overlap, or are 16 times too far from one another. -/
theorem height_eq_one (hcreated : clCreateImage context accepted rgbaFloat desc = .created image)
    (haccesses : AccessesPixels image driver) : image.height.toNat = 1 := by
  obtain ⟨rfl, -, -, -⟩ := clCreateImage_created hcreated
  have hmade := clCreateImage_wellMade hcreated
  have hwidth := hmade.width_pos
  have hheight := hmade.height_pos
  by_contra hne
  have hfirst : InImage (makeImage desc rgbaFloat) 0 0 :=
    ⟨le_rfl, by omega, by decide, le_rfl, by omega, by decide⟩
  have hsecond : InImage (makeImage desc rgbaFloat) 0 1 :=
    ⟨le_rfl, by omega, by decide, zero_le_one, by omega, by decide⟩
  have hposition := haccesses.write_position 0 1 hsecond
  have hrow : writeImagefPosition (devImage2d (makeImage desc rgbaFloat)) 0 1 =
      some (16 * (rowPitch desc rgbaFloat).toInt) := by
    have hpitch : devImage2d (makeImage desc rgbaFloat) =
        ⟨toInt desc.width, toInt desc.height, (rowPitch desc rgbaFloat).toInt⟩ := by
      rw [devImage2d, makeImage, toInt_ofInt]
    rw [hpitch]
    exact elementPosition_second_row _ _ _
  have hzero : (makeImage desc rgbaFloat).rowPitch.toNat = 0 := by
    refine ofInt_toNat_eq_zero ?_
    rw [hrow, Option.some_inj, pixelPosition, one_mul, mul_zero, add_zero] at hposition
    exact hposition
  have hsame : writeImagefPosition (devImage2d (makeImage desc rgbaFloat)) 0 0 =
      writeImagefPosition (devImage2d (makeImage desc rgbaFloat)) 0 1 := by
    rw [haccesses.write_position 0 0 hfirst, hposition, pixelPosition, pixelPosition, hzero]
    rfl
  exact absurd (haccesses.distinct 0 0 0 1 hfirst hsecond hsame).2 (by decide)

/-- A row that does not fit the size of an `int` is longer than the buffer. -/
theorem width_lt (hmade : WellMade image) (hheight : image.height.toNat = 1)
    (haccesses : AccessesPixels image driver) : image.width.toNat < 2 ^ 27 := by
  by_contra hwide
  have hin : InImage image (2 ^ 27 - 1) 0 :=
    ⟨by decide, by omega, by decide, le_rfl, by omega, by decide⟩
  have hposition := haccesses.write_position _ _ hin
  have hend := (haccesses.inside _ _ hin _ hposition).2
  have hsize := hmade.size_lt
  rw [pixelPosition, zero_mul, zero_add] at hend
  omega

section OneRow

variable (hheight : image.height.toNat = 1) {x y : ℤ} (hin : InImage image x y)

include hheight hin

theorem y_eq_zero_of_one_row : y = 0 := by
  have hlt := hin.y_lt
  have hle := hin.y_nonneg
  omega

theorem writeImagefPosition_of_one_row :
    writeImagefPosition (devImage2d image) x y = some (16 * x) := by
  rw [y_eq_zero_of_one_row hheight hin]
  exact elementPosition_first_row _ hin.x_nonneg hin.x_int

theorem readImagefPosition_of_one_row (hwidth : image.width.toNat < 2 ^ 27) :
    readImagefPosition (devImage2d image) x y = some (16 * x) := by
  have hxnonneg := hin.x_nonneg
  have hxlt := hin.x_lt
  have hheightInt : toInt image.height = 1 := by
    rw [toInt_of_lt (by omega), hheight]
    rfl
  have hwidthInt : toInt image.width = image.width.toNat := toInt_of_lt (by omega)
  simp only [readImagefPosition, devImage2d, hheightInt, hwidthInt,
    y_eq_zero_of_one_row hheight hin, lt_irrefl, if_false, not_lt.mpr hxnonneg, not_le.mpr hxlt]
  exact elementPosition_first_row _ hxnonneg hin.x_int

theorem pixelPosition_of_one_row : pixelPosition image x y = 16 * x := by
  rw [pixelPosition, y_eq_zero_of_one_row hheight hin, zero_mul, zero_add]

theorem byteOffset_of_one_row (hpixel : pixelSize image.format = 16) (byte : ℕ) :
    BitVec.ofNat 64 (image.byteOffset x.toNat y.toNat 0 byte) =
      BitVec.ofInt 64 (16 * x) + BitVec.ofNat 64 byte := by
  have hxnonneg := hin.x_nonneg
  have hoffset : image.byteOffset x.toNat y.toNat 0 byte = 16 * x.toNat + byte := by
    rw [Image.byteOffset, hpixel, y_eq_zero_of_one_row hheight hin]
    simp
    ring
  have hcast : 16 * x = ((16 * x.toNat : ℕ) : ℤ) := by omega
  rw [hoffset, hcast, BitVec.ofInt_natCast, BitVec.ofNat_add]

end OneRow

section RowAccess

variable (hmade : WellMade image) (hpixel : pixelSize image.format = 16)
  (htype : image.imageType = .image2D) (hheight : image.height.toNat = 1)
  (hwidth : image.width.toNat < 2 ^ 27)

include hmade hpixel htype hheight hwidth

omit hmade in
theorem plainFloats_of_one_row : PlainFloats image where
  pixel := hpixel
  fits := by
    rw [hheight]
    omega
  layers := by rw [Image.layers, if_neg (by rw [htype]; decide)]
  pitch := .inl hheight

theorem accessesPixels_of_one_row (hrects : HasRects driver) : AccessesPixels image driver := by
  have hplain := plainFloats_of_one_row hpixel htype hheight hwidth
  refine ⟨?_, ?_, ?_, ?_, ?_⟩
  · intro x y hin
    rw [writeImagefPosition_of_one_row hheight hin, pixelPosition_of_one_row hheight hin]
  · intro x y hin
    rw [readImagefPosition_of_one_row hheight hin hwidth, pixelPosition_of_one_row hheight hin]
  · intro x y x' y' hin hin' hsame
    rw [writeImagefPosition_of_one_row hheight hin, writeImagefPosition_of_one_row hheight hin',
      Option.some_inj] at hsame
    refine ⟨by omega, ?_⟩
    rw [y_eq_zero_of_one_row hheight hin, y_eq_zero_of_one_row hheight hin']
  · intro x y hin position hposition
    have hsize := hplain.size_eq hmade
    have hxnonneg := hin.x_nonneg
    have hxlt := hin.x_lt
    rw [writeImagefPosition_of_one_row hheight hin, Option.some_inj] at hposition
    rw [hheight, mul_one] at hsize
    omega
  · intro x y hin color device
    have hwrite := writeImagefPosition_of_one_row hheight hin
    have hread := readImagefPosition_of_one_row hheight hin hwidth
    have hx : x.toNat < image.width.toNat := by
      have hxnonneg := hin.x_nonneg
      have hxlt := hin.x_lt
      omega
    have hyNat : y.toNat < image.height.toNat := by
      rw [y_eq_zero_of_one_row hheight hin, hheight]
      decide
    have hlayer : 0 < image.layers := by
      rw [hplain.layers]
      decide
    have hinside := pixel_inside hx hyNat hlayer
    refine ⟨storeColor device (16 * x) color, by rw [writeImagef, hwrite]; rfl,
      ⟨_, by rw [readImagef, hread]; rfl, fun byte => loadColor_storeColor _ _ _⟩,
      _, poclReadImage_of_plainFloats hmade hplain hinside hrects, ?_⟩
    intro out byte hbyte
    have hcovered := (covered_byteOffset_iff hplain hinside hx hyNat hbyte).mpr
      ((pixel_inRegion_iff hx hyNat hlayer).mpr ⟨rfl, rfl, rfl⟩)
    rw [moveAll_of_mem copyRows_same ((read_covered_iff hmade hplain hinside).mpr hcovered),
      byteOffset_of_one_row hheight hin hpixel]
    exact loadColor_storeColor device (16 * x) color hbyte

end RowAccess

theorem accessesPixels_iff
    (hcreated : clCreateImage context accepted rgbaFloat desc = .created image)
    (htype : desc.imageType = .image2D) (hdriver : driver = .basic ∨ driver = .pthread) :
    AccessesPixels image driver ↔ desc.height.toNat = 1 ∧ desc.width.toNat < 2 ^ 27 := by
  have hmade := clCreateImage_wellMade hcreated
  obtain ⟨himage, -, -, -⟩ := clCreateImage_created hcreated
  constructor
  · intro haccesses
    have hheight := height_eq_one hcreated haccesses
    have hwidth := width_lt hmade hheight haccesses
    rw [himage] at hheight hwidth
    exact ⟨hheight, hwidth⟩
  · rintro ⟨hheight, hwidth⟩
    have hrects : HasRects driver := hdriver.imp_right .inl
    subst himage
    exact accessesPixels_of_one_row hmade rfl htype hheight hwidth hrects

/-! ## One row and four rows -/

def rowDesc : ImageDesc := { squareDesc .image2D 0 with height := 1 }

theorem row_accessesPixels : AccessesPixels (makeImage rowDesc rgbaFloat) .basic :=
  (@accessesPixels_iff (oneDevice rgbaFloat) true rowDesc _ .basic (by decide) rfl
    (.inl rfl)).mpr ⟨by decide, by decide⟩

/-- The second of four rows is accessed at 1024, behind the 256 bytes of the image. -/
theorem square_not_accessesPixels :
    clCreateImage (oneDevice rgbaFloat) true rgbaFloat (squareDesc .image2D 0) =
        .created (makeImage (squareDesc .image2D 0) rgbaFloat) ∧
      ¬ AccessesPixels (makeImage (squareDesc .image2D 0) rgbaFloat) .basic := by
  refine ⟨by decide, fun haccesses => ?_⟩
  have hin : InImage (makeImage (squareDesc .image2D 0) rgbaFloat) 0 1 :=
    ⟨by decide, by decide, by decide, by decide, by decide, by decide⟩
  have hposition : writeImagefPosition (devImage2d (makeImage (squareDesc .image2D 0) rgbaFloat))
      0 1 = some 1024 := by decide
  exact absurd (haccesses.inside 0 1 hin 1024 hposition).2 (by decide)

end Accesses

end Pocl.KernelImages
