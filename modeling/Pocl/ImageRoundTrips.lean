import Mathlib.Data.BitVec
import Mathlib.Tactic.Ring
import Pocl.ImageSizes
import Pocl.ImageTransfers
import Pocl.RectBoxes

/-!
# Which images can be read back

The two functions agree about images of 16 bytes a pixel that have one slice and rows without
padding.  For every other image, a region that `pocl_write_image` accepts is read back wrong,
or bytes of other pixels or outside of the buffer are written.
-/

namespace Pocl.Images

open KernelArguments RectTransfers ByteCopies

section Regions

variable (image : Image)

/-- A two-dimensional image is one slice. -/
def Image.layers : ℕ :=
  if image.imageType = .image3D then image.depth.toNat else 1

/-- The offset of a byte of a pixel.  The rows and the slices follow one another, in the image
and in the arrays of the host. -/
def Image.byteOffset (x y z byte : ℕ) : ℕ :=
  x * pixelSize image.format + byte + image.width.toNat * pixelSize image.format * y +
    image.height.toNat * (image.width.toNat * pixelSize image.format) * z

structure RegionInside (origin region : Sizes) : Prop where
  nonempty : Nonempty region
  x : origin.x.toNat + region.x.toNat ≤ image.width.toNat
  y : origin.y.toNat + region.y.toNat ≤ image.height.toNat
  z : origin.z.toNat + region.z.toNat ≤ image.layers

structure InRegion (origin region : Sizes) (x y z : ℕ) : Prop where
  x_le : origin.x.toNat ≤ x
  x_lt : x < origin.x.toNat + region.x.toNat
  y_le : origin.y.toNat ≤ y
  y_lt : y < origin.y.toNat + region.y.toNat
  z_le : origin.z.toNat ≤ z
  z_lt : z < origin.z.toNat + region.z.toNat

/-- The effects of the two functions on the same region. -/
structure ReadsBack (origin region : Sizes) (written read : List RowCopy) : Prop where
  written_inside : ∀ pair ∈ written.flatMap RowCopy.bytes, pair.1.toNat < image.size.toNat
  read_inside : ∀ pair ∈ read.flatMap RowCopy.bytes, pair.2.toNat < image.size.toNat
  pixels : ∀ (host device out : SizeT → UInt8) (x y z byte : ℕ),
    InRegion origin region x y z → byte < pixelSize image.format →
      moveAll (read.flatMap RowCopy.bytes)
          (moveAll (written.flatMap RowCopy.bytes) host device) out
          (BitVec.ofNat 64 (image.byteOffset x y z byte)) =
        host (BitVec.ofNat 64 (image.byteOffset x y z byte))
  others : ∀ (host device : SizeT → UInt8) (x y z byte : ℕ), x < image.width.toNat →
    y < image.height.toNat → z < image.layers → ¬ InRegion origin region x y z →
      byte < pixelSize image.format →
        moveAll (written.flatMap RowCopy.bytes) host device
            (BitVec.ofNat 64 (image.byteOffset x y z byte)) =
          device (BitVec.ofNat 64 (image.byteOffset x y z byte))

/-- A region that can be written can be read, and has the pixels that were written. -/
def RoundTrips (driver : Driver) : Prop :=
  ∀ origin region, RegionInside image origin region → ∀ written,
    poclWriteImage driver image origin region = .success written →
      ∃ read, poclReadImage driver image origin region = .success read ∧
        ReadsBack image origin region written read

/-- Four values of four bytes a pixel, one slice, no padding, and a size that is an `int`. -/
structure PlainFloats : Prop where
  pixel : pixelSize image.format = 16
  fits : 16 * (image.width.toNat * image.height.toNat) < 2 ^ 31
  layers : image.layers = 1
  pitch : image.height.toNat = 1 ∨ image.rowPitch.toNat = 16 * image.width.toNat

/-- No region of the image is let through. -/
def WritesNothing (driver : Driver) : Prop :=
  ¬ HasRects driver ∨
    ∀ origin region, RegionInside image origin region → refusesRegion image region = true

end Regions

section Rows

variable {side : RectSide} {region : Sizes} {address : SizeT}

theorem copyRows_same :
    ∀ pair ∈ (copyRows side side region).flatMap RowCopy.bytes, pair.1 = pair.2 := by
  intro pair hpair
  rw [copyRows_bytes] at hpair
  simp only [List.mem_flatMap, List.mem_map] at hpair
  obtain ⟨_, -, _, -, _, -, rfl⟩ := hpair
  rfl

theorem mem_copyRows_iff :
    (∃ pair ∈ (copyRows side side region).flatMap RowCopy.bytes, pair.1 = address) ↔
      ∃ k < region.z.toNat, ∃ j < region.y.toNat, ∃ x < region.x.toNat,
        side.rowPtr j k + BitVec.ofNat 64 x = address := by
  rw [copyRows_bytes]
  simp only [List.mem_flatMap, List.mem_map, List.mem_range]
  constructor
  · rintro ⟨pair, ⟨k, hk, j, hj, x, hx, rfl⟩, rfl⟩
    exact ⟨k, hk, j, hj, x, hx, rfl⟩
  · rintro ⟨k, hk, j, hj, x, hx, rfl⟩
    exact ⟨_, ⟨k, hk, j, hj, x, hx, rfl⟩, rfl⟩

variable {image : Image} {driver : Driver} {origin : Sizes} {rows : List RowCopy}

/-- Where `pocl_write_image` finds the rows, on both sides. -/
def writeSide (image : Image) (origin : Sizes) : RectSide :=
  ⟨0, tuned origin 4 4, image.rowPitch, 0⟩

theorem writeSide_rowPtr (j k : ℕ) :
    (writeSide image origin).rowPtr j k =
      origin.x * 4 * 4 + image.rowPitch * (origin.y + BitVec.ofNat 64 j) := by
  simp only [RectSide.rowPtr, RectSide.adjustedPtr, writeSide, tuned]
  ring

theorem poclWriteImage_eq_success_iff :
    poclWriteImage driver image origin region = .success rows ↔
      HasRects driver ∧ refusesRegion image region = false ∧
        rows = copyRows (writeSide image origin) (writeSide image origin) (tuned region 4 4) := by
  unfold poclWriteImage
  cases hrefused : refusesRegion image region with
  | true => simp
  | false =>
      cases driver <;>
        simp [writeRect, TransferOutcome.ofDriver, HasRects, writeSide, poclBasicWriteRect,
          poclPthreadWriteRect, poclHsaWriteRect, eq_comm]

theorem poclReadImage_same (hread : poclReadImage driver image origin region = .success rows) :
    ∀ pair ∈ rows.flatMap RowCopy.bytes, pair.1 = pair.2 := by
  unfold poclReadImage at hread
  dsimp only at hread
  split at hread
  next => cases hread
  split_ifs at hread
  cases driver <;>
    simp only [readRect, TransferOutcome.ofDriver, TransferOutcome.success.injEq,
      reduceCtorEq, poclBasicReadRect, poclPthreadReadRect, poclHsaReadRect] at hread <;>
    exact hread ▸ copyRows_same

variable {written read : List RowCopy}

/-- What is read back has been written. -/
theorem ReadsBack.covers
    (hback : ReadsBack image origin region written read)
    (hsame : ∀ pair ∈ read.flatMap RowCopy.bytes, pair.1 = pair.2) {x y z byte : ℕ}
    (hin : InRegion origin region x y z) (hbyte : byte < pixelSize image.format) :
    ∃ pair ∈ written.flatMap RowCopy.bytes,
      pair.1 = BitVec.ofNat 64 (image.byteOffset x y z byte) := by
  by_contra hnot
  have hdevice : moveAll (written.flatMap RowCopy.bytes) (fun _ => (1 : UInt8)) (fun _ => 0)
      (BitVec.ofNat 64 (image.byteOffset x y z byte)) = 0 :=
    moveAll_of_notMem fun pair hpair heq => hnot ⟨pair, hpair, heq⟩
  have hpixel := hback.pixels (fun _ => 1) (fun _ => 0) (fun _ => 0) x y z byte hin hbyte
  by_cases hread : ∃ pair ∈ read.flatMap RowCopy.bytes,
      pair.1 = BitVec.ofNat 64 (image.byteOffset x y z byte)
  · rw [moveAll_of_mem hsame hread, hdevice] at hpixel
    exact absurd hpixel (by decide)
  · rw [moveAll_of_notMem fun pair hpair heq => hread ⟨pair, hpair, heq⟩] at hpixel
    exact absurd hpixel (by decide)

theorem ReadsBack.avoids
    (hback : ReadsBack image origin region written read)
    (hsame : ∀ pair ∈ written.flatMap RowCopy.bytes, pair.1 = pair.2) {x y z byte : ℕ}
    (hx : x < image.width.toNat) (hy : y < image.height.toNat) (hz : z < image.layers)
    (hout : ¬ InRegion origin region x y z) (hbyte : byte < pixelSize image.format) :
    ¬ ∃ pair ∈ written.flatMap RowCopy.bytes,
      pair.1 = BitVec.ofNat 64 (image.byteOffset x y z byte) := by
  intro hwritten
  have hother := hback.others (fun _ => 1) (fun _ => 0) x y z byte hx hy hz hout hbyte
  rw [moveAll_of_mem hsame hwritten] at hother
  exact absurd hother (by decide)

end Rows

section Formats

theorem elemSize_cases (channelType : ChannelType) :
    elemSize channelType = 1 ∨ elemSize channelType = 2 ∨ elemSize channelType = 4 := by
  cases channelType <;> decide

theorem channels_cases (order : ChannelOrder) : channels order = 1 ∨ channels order = 4 := by
  cases order <;> decide

variable {format : ImageFormat}

theorem pixelSize_cases :
    (1 ≤ pixelSize format ∧ pixelSize format ≤ 8) ∨
      (pixelSize format = 16 ∧ elemSize format.channelDataType = 4 ∧
        channels format.channelOrder = 4) := by
  rw [pixelSize]
  rcases elemSize_cases format.channelDataType with helem | helem | helem <;>
    rcases channels_cases format.channelOrder with hchannels | hchannels <;>
      simp [helem, hchannels]

end Formats

/-- What is known about the fields of an image that has been created. -/
structure WellMade (image : Image) : Prop where
  elemSize : image.elemSize = BitVec.ofNat 64 (Images.elemSize image.format.channelDataType)
  channels : image.channels = BitVec.ofNat 64 (Images.channels image.format.channelOrder)
  size : image.size.toNat =
    image.width.toNat * image.height.toNat * pixelSize image.format % 2 ^ 32
  size_pos : 0 < image.size.toNat
  size_lt : image.size.toNat < 2 ^ 31

theorem clCreateImage_wellMade
    {context : ImageContext} {accepted : Bool} {format : ImageFormat} {desc : ImageDesc}
    {image : Image} (hcreated : clCreateImage context accepted format desc = .created image) :
    WellMade image := by
  obtain ⟨rfl, hpos, hlt, hsize⟩ := clCreateImage_created hcreated
  exact ⟨rfl, rfl, hsize, by rwa [hsize], by rwa [hsize]⟩

section Pixels

variable {image : Image} {driver : Driver} {x y z : ℕ}

def pixelOrigin (x y z : ℕ) : Sizes :=
  ⟨BitVec.ofNat 64 x, BitVec.ofNat 64 y, BitVec.ofNat 64 z⟩

theorem pixelOrigin_toNat
    (hx : x < image.width.toNat) (hy : y < image.height.toNat) (hz : z < image.layers) :
    (pixelOrigin x y z).x.toNat = x ∧ (pixelOrigin x y z).y.toNat = y ∧
      (pixelOrigin x y z).z.toNat = z := by
  have hwidth := image.width.isLt
  have hheight := image.height.isLt
  have hlayers : image.layers < 2 ^ 64 := by
    rw [Image.layers]
    split
    next => exact image.depth.isLt
    next => decide
  refine ⟨?_, ?_, ?_⟩
  · exact (BitVec.toNat_ofNat _ _).trans (Nat.mod_eq_of_lt (hx.trans hwidth))
  · exact (BitVec.toNat_ofNat _ _).trans (Nat.mod_eq_of_lt (hy.trans hheight))
  · exact (BitVec.toNat_ofNat _ _).trans (Nat.mod_eq_of_lt (hz.trans hlayers))

theorem pixel_inside
    (hx : x < image.width.toNat) (hy : y < image.height.toNat) (hz : z < image.layers) :
    RegionInside image (pixelOrigin x y z) ⟨1, 1, 1⟩ := by
  obtain ⟨hox, hoy, hoz⟩ := pixelOrigin_toNat hx hy hz
  refine ⟨⟨le_rfl, le_rfl, le_rfl⟩, ?_, ?_, ?_⟩
  · rw [hox]
    exact hx
  · rw [hoy]
    exact hy
  · rw [hoz]
    exact hz

theorem pixel_inRegion_iff
    (hx : x < image.width.toNat) (hy : y < image.height.toNat) (hz : z < image.layers)
    {x' y' z' : ℕ} :
    InRegion (pixelOrigin x y z) ⟨1, 1, 1⟩ x' y' z' ↔ x' = x ∧ y' = y ∧ z' = z := by
  obtain ⟨hox, hoy, hoz⟩ := pixelOrigin_toNat hx hy hz
  constructor
  · rintro ⟨hxle, hxlt, hyle, hylt, hzle, hzlt⟩
    rw [hox] at hxle hxlt
    rw [hoy] at hyle hylt
    rw [hoz] at hzle hzlt
    change x' < x + 1 at hxlt
    change y' < y + 1 at hylt
    change z' < z + 1 at hzlt
    omega
  · rintro ⟨rfl, rfl, rfl⟩
    refine ⟨hox.le, ?_, hoy.le, ?_, hoz.le, ?_⟩
    · rw [hox]
      exact Nat.lt_succ_self _
    · rw [hoy]
      exact Nat.lt_succ_self _
    · rw [hoz]
      exact Nat.lt_succ_self _

/-- A pixel is accepted anywhere, and 16 bytes are written for it. -/
theorem pixel_written (hrects : HasRects driver) (hsize : 16 ≤ image.size.toNat) :
    ∃ written, poclWriteImage driver image (pixelOrigin x y z) ⟨1, 1, 1⟩ = .success written ∧
      (∀ pair ∈ written.flatMap RowCopy.bytes, pair.1 = pair.2) ∧
      ∀ address, (∃ pair ∈ written.flatMap RowCopy.bytes, pair.1 = address) ↔
        ∃ byte < 16, BitVec.ofNat 64 (16 * x + byte) +
          image.rowPitch * BitVec.ofNat 64 y = address := by
  have htuned : tuned ⟨1, 1, 1⟩ 4 4 = ⟨16, 1, 1⟩ := by decide
  have hrefused : refusesRegion image ⟨1, 1, 1⟩ = false := by
    have hlast : (16 : SizeT) - 1 + image.rowPitch * (1 - 1) + 0 * (1 - 1) = 15 := by
      rw [sub_self, mul_zero, mul_zero, add_zero, add_zero]
      rfl
    rw [refusesRegion, htuned]
    dsimp only
    rw [hlast, Bool.and_eq_false_imp]
    intro
    rw [decide_eq_false_iff_not, BitVec.not_le]
    exact hsize
  refine ⟨_, poclWriteImage_eq_success_iff.mpr ⟨hrects, hrefused, rfl⟩, copyRows_same,
    fun address => ?_⟩
  have haddress : ∀ byte : ℕ, (writeSide image (pixelOrigin x y z)).rowPtr 0 0 +
      BitVec.ofNat 64 byte =
        BitVec.ofNat 64 (16 * x + byte) + image.rowPitch * BitVec.ofNat 64 y := by
    intro byte
    have hsixteen : BitVec.ofNat 64 16 = 4 * 4 := rfl
    have hzero : BitVec.ofNat 64 0 = 0 := rfl
    rw [writeSide_rowPtr, BitVec.ofNat_add, BitVec.ofNat_mul, hsixteen, hzero]
    simp only [pixelOrigin]
    ring
  rw [mem_copyRows_iff, htuned]
  constructor
  · rintro ⟨k, hk, j, hj, byte, hbyte, heq⟩
    obtain rfl : k = 0 := Nat.lt_one_iff.mp hk
    obtain rfl : j = 0 := Nat.lt_one_iff.mp hj
    exact ⟨byte, hbyte, (haddress byte).symm.trans heq⟩
  · rintro ⟨byte, hbyte, heq⟩
    exact ⟨0, Nat.one_pos, 0, Nat.one_pos, byte, hbyte, (haddress byte).trans heq⟩

end Pixels

section Reads

variable {image : Image} {driver : Driver} {origin region : Sizes} {rows : List RowCopy}

theorem toInt_of_lt {size : SizeT} (hlt : size.toNat < 2 ^ 31) : toInt size = size.toNat := by
  have hword : (size.setWidth 32).toNat = size.toNat := by
    rw [BitVec.toNat_setWidth, Nat.mod_eq_of_lt (by omega)]
  rw [toInt, BitVec.toInt_eq_toNat_of_lt (by omega), hword]

theorem intMul_of_lt {first second : ℕ} (hlt : first * second < 2 ^ 31) :
    intMul first second = some ((first * second : ℕ) : ℤ) := by
  rw [intMul, ← Nat.cast_mul, if_pos]
  constructor <;> omega

/-- Where `pocl_read_image` finds the rows of 16 bytes a pixel, on both sides. -/
def readSide (image : Image) (origin : Sizes) : RectSide :=
  ⟨0, tuned origin 4 4, BitVec.ofNat 64 (16 * image.width.toNat),
    image.height * BitVec.ofNat 64 (16 * image.width.toNat)⟩

theorem readSide_rowPtr (j k : ℕ) :
    (readSide image origin).rowPtr j k =
      origin.x * 4 * 4 + BitVec.ofNat 64 (16 * image.width.toNat) *
          (origin.y + BitVec.ofNat 64 j) +
        image.height * BitVec.ofNat 64 (16 * image.width.toNat) *
          (BitVec.ofNat 64 (16 * image.width.toNat) * origin.z + BitVec.ofNat 64 k) := by
  simp only [RectSide.rowPtr, RectSide.adjustedPtr, readSide, tuned]
  ring

theorem poclReadImage_eq_success_iff
    (hmade : WellMade image) (helem : elemSize image.format.channelDataType = 4)
    (hchannels : Images.channels image.format.channelOrder = 4)
    (hrow : 16 * image.width.toNat < 2 ^ 31) (hheight : image.height.toNat < 2 ^ 31) :
    poclReadImage driver image origin region = .success rows ↔
      (¬ (BitVec.ofNat 64 (16 * image.width.toNat) <
            (tuned origin 4 4).x + (tuned region 4 4).x ∨
          image.height < origin.y + region.y) ∧
        ¬ (image.imageType = .image3D ∧ image.depth < origin.z + region.z) ∧
        ¬ (image.imageType ≠ .image3D ∧ region.z ≠ 1)) ∧
      HasRects driver ∧
        rows = copyRows (readSide image origin) (readSide image origin) (tuned region 4 4) := by
  have hwidthInt : toInt image.width = image.width.toNat := toInt_of_lt (by omega)
  have helemInt : toInt image.elemSize = ((4 : ℕ) : ℤ) := by
    rw [hmade.elemSize, helem]
    rfl
  have hchannelsInt : toInt image.channels = ((4 : ℕ) : ℤ) := by
    rw [hmade.channels, hchannels]
    rfl
  have hproduct : (intMul (toInt image.width) (toInt image.elemSize)).bind
      (fun row => intMul row (toInt image.channels)) =
        some ((16 * image.width.toNat : ℕ) : ℤ) := by
    rw [hwidthInt, helemInt, hchannelsInt, intMul_of_lt (by omega), Option.bind_some,
      intMul_of_lt (by omega)]
    congr 2
    ring
  have hheightWord : BitVec.ofInt 64 (toInt image.height) = image.height := by
    rw [toInt_of_lt hheight, BitVec.ofInt_natCast, BitVec.ofNat_toNat, BitVec.setWidth_eq]
  have hfour : BitVec.ofInt 64 ((4 : ℕ) : ℤ) = 4 := rfl
  unfold poclReadImage
  dsimp only
  rw [hproduct, hheightWord, helemInt, hchannelsInt, hfour]
  simp only [BitVec.ofInt_natCast]
  split_ifs with hbounds hdepth hslices
  · exact iff_of_false (by simp) fun hread => hread.1.1 hbounds
  · exact iff_of_false (by simp) fun hread => hread.1.2.1 hdepth
  · exact iff_of_false (by simp) fun hread => hread.1.2.2 hslices
  · rw [and_iff_right ⟨hbounds, hdepth, hslices⟩]
    cases driver <;>
      simp [readRect, TransferOutcome.ofDriver, HasRects, readSide, poclBasicReadRect,
        poclPthreadReadRect, poclHsaReadRect, eq_comm]

end Reads

section Necessity

variable {image : Image} {driver : Driver}

/-- The first row of an accepted region has at least 16 bytes. -/
theorem sixteen_le_size
    (hround : RoundTrips image driver) (hrects : HasRects driver) {origin region : Sizes}
    (hinside : RegionInside image origin region)
    (haccepted : refusesRegion image region = false) : 16 ≤ image.size.toNat := by
  have hwrite : poclWriteImage driver image origin region = .success _ :=
    poclWriteImage_eq_success_iff.mpr ⟨hrects, haccepted, rfl⟩
  obtain ⟨read, hread, hback⟩ := hround origin region hinside _ hwrite
  have hbyte : 0 < pixelSize image.format := by
    rcases @pixelSize_cases image.format with hsmall | hlarge <;> omega
  have hin : InRegion origin region origin.x.toNat origin.y.toNat origin.z.toNat := by
    obtain ⟨hx, hy, hz⟩ := hinside.nonempty
    exact ⟨le_rfl, by omega, le_rfl, by omega, le_rfl, by omega⟩
  obtain ⟨pair, hpair, heq⟩ := hback.covers (poclReadImage_same hread) hin hbyte
  obtain ⟨k, hk, j, hj, first, hfirst, -⟩ := mem_copyRows_iff.mp ⟨pair, hpair, heq⟩
  have hlength : (tuned region 4 4).x.toNat = region.x.toNat * 16 % 2 ^ 64 := by
    simp only [tuned, BitVec.toNat_mul]
    change region.x.toNat * 4 % 2 ^ 64 * 4 % 2 ^ 64 = _
    omega
  have hbound : ∀ byte < 16, ((writeSide image origin).rowPtr j k +
      BitVec.ofNat 64 byte).toNat < image.size.toNat := by
    intro byte hlt
    obtain ⟨found, hfound, haddress⟩ := mem_copyRows_iff.mpr
      ⟨k, hk, j, hj, byte, by omega, rfl⟩
    rw [← haddress]
    exact hback.written_inside found hfound
  -- The bytes at 16 addresses in a row are not all below a smaller size.
  by_contra hsmall
  have hstart := hbound 0 (by decide)
  have hlast := hbound (15 - ((writeSide image origin).rowPtr j k).toNat) (by omega)
  rw [BitVec.add_zero] at hstart
  rw [BitVec.toNat_add, BitVec.toNat_ofNat] at hlast
  omega

variable (hmade : WellMade image) (hround : RoundTrips image driver)
  (hrects : HasRects driver) (hlayers : 1 ≤ image.layers) (hsize : 16 ≤ image.size.toNat)

include hmade

theorem WellMade.size_le :
    image.size.toNat ≤ image.width.toNat * image.height.toNat * pixelSize image.format := by
  rw [hmade.size]
  exact Nat.mod_le _ _

theorem WellMade.width_pos : 0 < image.width.toNat := by
  refine Nat.pos_of_ne_zero fun hzero => ?_
  have hpos := hmade.size_pos
  rw [hmade.size, hzero, Nat.zero_mul, Nat.zero_mul] at hpos
  exact absurd hpos (by decide)

theorem WellMade.height_pos : 0 < image.height.toNat := by
  refine Nat.pos_of_ne_zero fun hzero => ?_
  have hpos := hmade.size_pos
  rw [hmade.size, hzero, Nat.mul_zero, Nat.zero_mul] at hpos
  exact absurd hpos (by decide)

include hround hrects hlayers hsize

/-- The bytes that are written for a smaller pixel belong to the next one as well. -/
theorem pixelSize_eq_sixteen :
    pixelSize image.format = 16 ∧ elemSize image.format.channelDataType = 4 ∧
      channels image.format.channelOrder = 4 := by
  rcases @pixelSize_cases image.format with ⟨hpos, hsmall⟩ | hlarge
  · exfalso
    obtain ⟨written, hwrite, hsame, htouched⟩ := @pixel_written image driver 0 0 0 hrects hsize
    obtain ⟨read, -, hback⟩ := hround _ _
      (pixel_inside hmade.width_pos hmade.height_pos hlayers) written hwrite
    have hnext : ∃ pair ∈ written.flatMap RowCopy.bytes,
        pair.1 = BitVec.ofNat 64 (pixelSize image.format) := by
      refine (htouched _).mpr ⟨pixelSize image.format, by omega, ?_⟩
      rw [Nat.mul_zero, Nat.zero_add]
      exact (congrArg _ (mul_zero image.rowPitch)).trans (add_zero _)
    by_cases hwidth : 1 < image.width.toNat
    · have hout : ¬ InRegion (pixelOrigin 0 0 0) ⟨1, 1, 1⟩ 1 0 0 := by
        rw [pixel_inRegion_iff hmade.width_pos hmade.height_pos hlayers]
        exact fun heq => absurd heq.1 (by decide)
      refine hback.avoids hsame hwidth hmade.height_pos hlayers hout hpos ?_
      simpa [Image.byteOffset] using hnext
    · have hone : image.width.toNat = 1 := by
        have hpos := hmade.width_pos
        omega
      have hheight : 1 < image.height.toNat := by
        have hle := hsize.trans hmade.size_le
        rw [hone, Nat.one_mul] at hle
        by_contra hnot
        have hmul := Nat.mul_le_mul (not_lt.mp hnot) hsmall
        omega
      have hout : ¬ InRegion (pixelOrigin 0 0 0) ⟨1, 1, 1⟩ 0 1 0 := by
        rw [pixel_inRegion_iff hmade.width_pos hmade.height_pos hlayers]
        exact fun heq => absurd heq.2.1 (by decide)
      refine hback.avoids hsame hmade.width_pos hheight hlayers hout hpos ?_
      simpa [Image.byteOffset, hone] using hnext
  · exact hlarge

omit hmade in
theorem pixel_bound {x y : ℕ} (hx : x < image.width.toNat) (hy : y < image.height.toNat) :
    (BitVec.ofNat 64 (16 * x) + image.rowPitch * BitVec.ofNat 64 y).toNat <
      image.size.toNat := by
  obtain ⟨written, hwrite, -, htouched⟩ := @pixel_written image driver x y 0 hrects hsize
  obtain ⟨read, -, hback⟩ := hround _ _ (pixel_inside hx hy hlayers) written hwrite
  obtain ⟨pair, hpair, heq⟩ := (htouched _).mpr ⟨0, by decide, rfl⟩
  rw [Nat.add_zero] at heq
  rw [← heq]
  exact hback.written_inside pair hpair

theorem row_fits : 16 * image.width.toNat ≤ image.size.toNat := by
  obtain ⟨hpixel, -, -⟩ := pixelSize_eq_sixteen hmade hround hrects hlayers hsize
  have hmultiple := hmade.size
  rw [hpixel] at hmultiple
  by_contra hlt
  have hbound := pixel_bound hround hrects hlayers hsize
    (show image.size.toNat / 16 < image.width.toNat by omega) hmade.height_pos
  have hlimit := hmade.size_lt
  have hzero : image.rowPitch * BitVec.ofNat 64 0 = 0 := mul_zero _
  rw [hzero, add_zero, BitVec.toNat_ofNat] at hbound
  omega

/-- The second row of the host is written where it is read. -/
theorem rowPitch_eq (hheight : 1 < image.height.toNat) :
    image.rowPitch = BitVec.ofNat 64 (16 * image.width.toNat) := by
  obtain ⟨hpixel, -, -⟩ := pixelSize_eq_sixteen hmade hround hrects hlayers hsize
  obtain ⟨written, hwrite, -, htouched⟩ := @pixel_written image driver 0 1 0 hrects hsize
  obtain ⟨read, hread, hback⟩ := hround _ _
    (pixel_inside hmade.width_pos hheight hlayers) written hwrite
  have hbyte : ∀ byte < 16, ∃ byte' < 16, BitVec.ofNat 64 byte' + image.rowPitch =
      BitVec.ofNat 64 (byte + 16 * image.width.toNat) := by
    intro byte hlt
    have hcovered := hback.covers (poclReadImage_same hread)
      ((pixel_inRegion_iff hmade.width_pos hheight hlayers).mpr ⟨rfl, rfl, rfl⟩)
      (lt_of_lt_of_eq hlt hpixel.symm)
    obtain ⟨byte', hlt', heq⟩ := (htouched _).mp hcovered
    refine ⟨byte', hlt', ?_⟩
    have hone : image.rowPitch * BitVec.ofNat 64 1 = image.rowPitch := mul_one _
    rw [hone, Nat.mul_zero, Nat.zero_add] at heq
    rw [heq, Image.byteOffset, hpixel, Nat.zero_mul, Nat.zero_add, Nat.mul_one, Nat.mul_zero,
      Nat.add_zero, Nat.mul_comm image.width.toNat]
  obtain ⟨first, hfirst, hfirstEq⟩ := hbyte 0 (by decide)
  obtain ⟨last, hlast, hlastEq⟩ := hbyte 15 (by decide)
  -- The first of 16 bytes in a row is not the last one.
  have hzero : first = 0 := by
    have hdiff : BitVec.ofNat 64 last = BitVec.ofNat 64 (15 + first) := by
      rw [BitVec.ofNat_add, ← add_left_inj image.rowPitch, hlastEq, add_assoc, hfirstEq,
        Nat.zero_add, ← BitVec.ofNat_add]
    have htoNat := congrArg BitVec.toNat hdiff
    rw [BitVec.toNat_ofNat, BitVec.toNat_ofNat] at htoNat
    omega
  rw [hzero, Nat.zero_add] at hfirstEq
  exact (BitVec.zero_add _).symm.trans hfirstEq

theorem area_fits : 16 * (image.width.toNat * image.height.toNat) ≤ image.size.toNat := by
  obtain ⟨hpixel, -, -⟩ := pixelSize_eq_sixteen hmade hround hrects hlayers hsize
  have hmultiple := hmade.size
  rw [hpixel] at hmultiple
  have hrow := row_fits hmade hround hrects hlayers hsize
  have hlimit := hmade.size_lt
  by_contra hlt
  -- The pixel that would start at the end of the buffer.
  have hpixelLt : image.size.toNat / 16 < image.height.toNat * image.width.toNat := by
    rw [Nat.mul_comm image.height.toNat]
    omega
  have hx := Nat.mod_lt (image.size.toNat / 16) hmade.width_pos
  have hy := Nat.div_lt_of_lt_mul ((Nat.mul_comm _ _).symm ▸ hpixelLt)
  have hbound := pixel_bound hround hrects hlayers hsize hx hy
  have hdigits := Nat.mod_add_div (image.size.toNat / 16) image.width.toNat
  generalize image.size.toNat / 16 % image.width.toNat = x at hx hbound hdigits
  generalize image.size.toNat / 16 / image.width.toNat = y at hy hbound hdigits
  have haddress : BitVec.ofNat 64 (16 * x) + image.rowPitch * BitVec.ofNat 64 y =
      BitVec.ofNat 64 (16 * (x + image.width.toNat * y)) := by
    by_cases hheight : 1 < image.height.toNat
    · rw [rowPitch_eq hmade hround hrects hlayers hsize hheight, ← BitVec.ofNat_mul,
        ← BitVec.ofNat_add, Nat.mul_add, Nat.mul_assoc]
    · obtain rfl : y = 0 := by omega
      have hzero : image.rowPitch * BitVec.ofNat 64 0 = 0 := mul_zero _
      rw [hzero, add_zero, Nat.mul_zero, Nat.add_zero]
  rw [haddress, hdigits, BitVec.toNat_ofNat] at hbound
  omega

/-- The second slice is read from beyond the buffer. -/
theorem layers_eq_one : image.layers = 1 := by
  obtain ⟨hpixel, helem, hchannels⟩ := pixelSize_eq_sixteen hmade hround hrects hlayers hsize
  have harea := area_fits hmade hround hrects hlayers hsize
  have hle := hmade.size_le
  have hlimit := hmade.size_lt
  have hwidth := hmade.width_pos
  have hrow := row_fits hmade hround hrects hlayers hsize
  have hheight : image.height.toNat ≤ image.width.toNat * image.height.toNat :=
    Nat.le_mul_of_pos_left _ hwidth
  rw [hpixel] at hle
  by_contra hne
  have hsecond : 1 < image.layers := by omega
  obtain ⟨written, hwrite, -, -⟩ := @pixel_written image driver 0 0 1 hrects hsize
  obtain ⟨read, hread, hback⟩ := hround _ _
    (pixel_inside hwidth hmade.height_pos hsecond) written hwrite
  rw [poclReadImage_eq_success_iff hmade helem hchannels (by omega) (by omega)] at hread
  obtain ⟨-, -, rfl⟩ := hread
  obtain ⟨pair, hpair, heq⟩ := (@mem_copyRows_iff (readSide image (pixelOrigin 0 0 1))
    (tuned ⟨1, 1, 1⟩ 4 4) _).mpr ⟨0, by decide, 0, by decide, 0, by decide, rfl⟩
  have hinside := hback.read_inside pair hpair
  rw [← copyRows_same pair hpair, heq] at hinside
  have haddress : (readSide image (pixelOrigin 0 0 1)).rowPtr 0 0 + BitVec.ofNat 64 0 =
      BitVec.ofNat 64 (image.height.toNat * (16 * image.width.toNat) *
        (16 * image.width.toNat)) := by
    have hzero : BitVec.ofNat 64 0 = 0 := rfl
    have hone : BitVec.ofNat 64 1 = 1 := rfl
    rw [readSide_rowPtr]
    simp only [pixelOrigin, hzero, hone, BitVec.ofNat_mul, BitVec.ofNat_toNat,
      BitVec.setWidth_eq]
    ring
  have hproduct : image.height.toNat * (16 * image.width.toNat) =
      16 * (image.width.toNat * image.height.toNat) := by
    ring
  have hbig : 16 * (image.width.toNat * image.height.toNat) * (16 * image.width.toNat) <
      2 ^ 31 * 2 ^ 31 := Nat.mul_lt_mul'' (by omega) (by omega)
  have hlarge : 16 * (image.width.toNat * image.height.toNat) * 16 ≤
      16 * (image.width.toNat * image.height.toNat) * (16 * image.width.toNat) :=
    Nat.mul_le_mul_left _ (by omega)
  rw [haddress, hproduct, BitVec.toNat_ofNat, Nat.mod_eq_of_lt (by omega)] at hinside
  omega

theorem plainFloats_of_roundTrips : PlainFloats image where
  pixel := (pixelSize_eq_sixteen hmade hround hrects hlayers hsize).1
  fits := (area_fits hmade hround hrects hlayers hsize).trans_lt hmade.size_lt
  layers := layers_eq_one hmade hround hrects hlayers hsize
  pitch := by
    by_cases hheight : 1 < image.height.toNat
    · right
      have hrow := row_fits hmade hround hrects hlayers hsize
      have hlimit := hmade.size_lt
      rw [rowPitch_eq hmade hround hrects hlayers hsize hheight, BitVec.toNat_ofNat]
      exact Nat.mod_eq_of_lt (by omega)
    · left
      have hpos := hmade.height_pos
      omega

end Necessity

section Sufficiency

variable {image : Image} {driver : Driver} {origin region : Sizes} {address : SizeT}

/-- The bytes of the region. -/
def Covered (image : Image) (origin region : Sizes) (address : SizeT) : Prop :=
  ∃ j < region.y.toNat, ∃ byte < 16 * region.x.toNat,
    BitVec.ofNat 64 (16 * origin.x.toNat + byte +
      16 * image.width.toNat * (origin.y.toNat + j)) = address

variable (hmade : WellMade image) (hplain : PlainFloats image)
  (hinside : RegionInside image origin region)

include hmade hplain

theorem PlainFloats.row_lt : 16 * image.width.toNat < 2 ^ 31 := by
  have hle := Nat.le_mul_of_pos_right (16 * image.width.toNat) hmade.height_pos
  have hfits := hplain.fits
  rw [← Nat.mul_assoc] at hfits
  exact hle.trans_lt hfits

theorem PlainFloats.size_eq :
    image.size.toNat = 16 * (image.width.toNat * image.height.toNat) := by
  rw [hmade.size, hplain.pixel, Nat.mul_comm _ 16]
  exact Nat.mod_eq_of_lt (hplain.fits.trans (by decide))

include hinside

omit hmade in
theorem RegionInside.single :
    origin.z.toNat = 0 ∧ region.z.toNat = 1 := by
  have hz := hinside.z
  have hpos := hinside.nonempty.2.2
  rw [hplain.layers] at hz
  omega

theorem RegionInside.tuned_x :
    (tuned region 4 4).x.toNat = 16 * region.x.toNat ∧
      (tuned origin 4 4).x = BitVec.ofNat 64 (16 * origin.x.toNat) := by
  have hrow := hplain.row_lt hmade
  have hx := hinside.x
  constructor
  · simp only [tuned, BitVec.toNat_mul]
    change region.x.toNat * 4 % 2 ^ 64 * 4 % 2 ^ 64 = _
    omega
  · have hsixteen : BitVec.ofNat 64 16 = 4 * 4 := rfl
    rw [BitVec.ofNat_mul, BitVec.ofNat_toNat, BitVec.setWidth_eq, hsixteen]
    simp only [tuned]
    ring

/-- The rows of the region are where the pixels are. -/
theorem covered_iff
    {side : RectSide}
    (hrows : ∀ j < region.y.toNat, side.rowPtr j 0 =
      BitVec.ofNat 64 (16 * origin.x.toNat + 16 * image.width.toNat * (origin.y.toNat + j))) :
    (∃ pair ∈ (copyRows side side (tuned region 4 4)).flatMap RowCopy.bytes,
        pair.1 = address) ↔ Covered image origin region address := by
  obtain ⟨-, hslices⟩ := hinside.single hplain
  obtain ⟨hlength, -⟩ := hinside.tuned_x hmade hplain
  have haddress : ∀ j < region.y.toNat, ∀ byte,
      side.rowPtr j 0 + BitVec.ofNat 64 byte = BitVec.ofNat 64 (16 * origin.x.toNat + byte +
        16 * image.width.toNat * (origin.y.toNat + j)) := by
    intro j hj byte
    rw [hrows j hj, ← BitVec.ofNat_add, Nat.add_right_comm]
  rw [mem_copyRows_iff, hlength]
  constructor
  · rintro ⟨k, hk, j, hj, byte, hbyte, heq⟩
    change k < region.z.toNat at hk
    rw [hslices, Nat.lt_one_iff] at hk
    subst hk
    exact ⟨j, hj, byte, hbyte, (haddress j hj byte).symm.trans heq⟩
  · rintro ⟨j, hj, byte, hbyte, heq⟩
    refine ⟨0, ?_, j, hj, byte, hbyte, (haddress j hj byte).trans heq⟩
    exact lt_of_lt_of_eq Nat.one_pos hslices.symm

theorem written_covered_iff :
    (∃ pair ∈ (copyRows (writeSide image origin) (writeSide image origin)
        (tuned region 4 4)).flatMap RowCopy.bytes, pair.1 = address) ↔
      Covered image origin region address := by
  refine covered_iff hmade hplain hinside fun j hj => ?_
  have horigin := (hinside.tuned_x hmade hplain).2
  rw [writeSide_rowPtr, BitVec.ofNat_add, ← horigin]
  congr 1
  have hy := hinside.y
  rcases hplain.pitch with hone | hpitch
  · have hfirst : origin.y.toNat = 0 ∧ j = 0 := by omega
    have hzero : origin.y = 0 := BitVec.eq_of_toNat_eq hfirst.1
    rw [hfirst.1, hfirst.2, hzero]
    exact mul_zero _
  · rw [BitVec.ofNat_mul, BitVec.ofNat_add, BitVec.ofNat_toNat, BitVec.setWidth_eq, ← hpitch,
      BitVec.ofNat_toNat, BitVec.setWidth_eq]

theorem read_covered_iff :
    (∃ pair ∈ (copyRows (readSide image origin) (readSide image origin)
        (tuned region 4 4)).flatMap RowCopy.bytes, pair.1 = address) ↔
      Covered image origin region address := by
  refine covered_iff hmade hplain hinside fun j _ => ?_
  have horigin := (hinside.tuned_x hmade hplain).2
  have hz : origin.z = 0 := BitVec.eq_of_toNat_eq (hinside.single hplain).1
  have hzero : BitVec.ofNat 64 0 = 0 := rfl
  rw [readSide_rowPtr, hz, hzero, mul_zero, add_zero, mul_zero, add_zero, BitVec.ofNat_add,
    ← horigin, BitVec.ofNat_mul _ (_ + j), BitVec.ofNat_add, BitVec.ofNat_toNat,
    BitVec.setWidth_eq]
  rfl

theorem Covered.lt (hcovered : Covered image origin region address) :
    address.toNat < image.size.toNat := by
  obtain ⟨j, hj, byte, hbyte, rfl⟩ := hcovered
  have hx := hinside.x
  have hy := hinside.y
  have hrow := Nat.mul_le_mul_left (16 * image.width.toNat)
    (show origin.y.toNat + j + 1 ≤ image.height.toNat by omega)
  have hfits := hplain.fits
  rw [hplain.size_eq hmade, BitVec.toNat_ofNat]
  rw [Nat.mul_add _ (_ + j), Nat.mul_one, Nat.mul_assoc 16 _ image.height.toNat] at hrow
  rw [Nat.mod_eq_of_lt (by omega)]
  omega

omit hmade in
/-- A byte of a pixel belongs to the region of the pixel only. -/
theorem covered_byteOffset_iff
    {x y byte : ℕ} (hx : x < image.width.toNat) (hy : y < image.height.toNat) (hbyte : byte < 16) :
    Covered image origin region (BitVec.ofNat 64 (image.byteOffset x y 0 byte)) ↔
      InRegion origin region x y 0 := by
  obtain ⟨hfirst, hslices⟩ := hinside.single hplain
  have hoffset : image.byteOffset x y 0 byte =
      16 * x + byte + 16 * image.width.toNat * y := by
    rw [Image.byteOffset, hplain.pixel]
    ring
  have hlimit : ∀ column row, column < 16 * image.width.toNat → row < image.height.toNat →
      column + 16 * image.width.toNat * row < 2 ^ 64 := by
    intro column row hcolumn hrow
    have hmul := Nat.mul_le_mul_left (16 * image.width.toNat) (Nat.succ_le_of_lt hrow)
    have hfits := hplain.fits
    rw [Nat.mul_succ, Nat.mul_assoc 16 _ image.height.toNat] at hmul
    omega
  have hxle := hinside.x
  have hyle := hinside.y
  rw [hoffset]
  constructor
  · rintro ⟨j, hj, byte', hbyte', heq⟩
    have heq' := congrArg BitVec.toNat heq
    rw [BitVec.toNat_ofNat, BitVec.toNat_ofNat,
      Nat.mod_eq_of_lt (hlimit _ _ (by omega) (by omega)),
      Nat.mod_eq_of_lt (hlimit _ _ (by omega) hy)] at heq'
    have hpos : 0 < 16 * image.width.toNat := by omega
    have hrows := congrArg (· / (16 * image.width.toNat)) heq'
    have hcolumns := congrArg (· % (16 * image.width.toNat)) heq'
    simp only [Nat.add_mul_div_left _ _ hpos, Nat.add_mul_mod_self_left] at hrows hcolumns
    rw [Nat.div_eq_of_lt (by omega), Nat.div_eq_of_lt (by omega)] at hrows
    rw [Nat.mod_eq_of_lt (by omega), Nat.mod_eq_of_lt (by omega)] at hcolumns
    exact ⟨by omega, by omega, by omega, by omega, by omega, by omega⟩
  · rintro ⟨hxLe, hxLt, hyLe, hyLt, -, -⟩
    refine ⟨y - origin.y.toNat, by omega, 16 * (x - origin.x.toNat) + byte, by omega, ?_⟩
    congr 1
    rw [Nat.add_sub_cancel' hyLe]
    omega

/-- A region of the image passes the checks of `pocl_read_image`. -/
theorem poclReadImage_of_plainFloats (hrects : HasRects driver) :
    poclReadImage driver image origin region =
      .success (copyRows (readSide image origin) (readSide image origin) (tuned region 4 4)) := by
  obtain ⟨hpixel, helem, hchannels⟩ := (@pixelSize_cases image.format).resolve_left
    (by rw [hplain.pixel]; omega)
  obtain ⟨hfirst, hslices⟩ := hinside.single hplain
  obtain ⟨hlength, hcolumn⟩ := hinside.tuned_x hmade hplain
  have hrow := hplain.row_lt hmade
  have hheight : image.height.toNat < 2 ^ 31 := by
    have hle := Nat.le_mul_of_pos_left image.height.toNat hmade.width_pos
    have hfits := hplain.fits
    omega
  have hcolumns : ¬ BitVec.ofNat 64 (16 * image.width.toNat) <
      (tuned origin 4 4).x + (tuned region 4 4).x := by
    have hx := hinside.x
    rw [BitVec.not_lt, BitVec.le_def, BitVec.toNat_add, hlength, hcolumn, BitVec.toNat_ofNat,
      BitVec.toNat_ofNat]
    omega
  have hrows : ¬ image.height < origin.y + region.y := by
    have hy := hinside.y
    rw [BitVec.not_lt, BitVec.le_def, BitVec.toNat_add]
    omega
  have hdepth : ¬ (image.imageType = .image3D ∧ image.depth < origin.z + region.z) := by
    rintro ⟨htype, hlt⟩
    have hlayers := hplain.layers
    rw [Image.layers, if_pos htype] at hlayers
    rw [BitVec.lt_def, BitVec.toNat_add, hfirst, hslices, hlayers] at hlt
    exact absurd hlt (by decide)
  have hone : region.z = 1 := BitVec.eq_of_toNat_eq hslices
  exact (poclReadImage_eq_success_iff hmade helem hchannels hrow hheight).mpr
    ⟨⟨not_or.mpr ⟨hcolumns, hrows⟩, hdepth, fun hne => hne.2 hone⟩, hrects, rfl⟩

omit hinside in
theorem roundTrips_of_plainFloats : RoundTrips image driver := by
  intro origin region hinside written hwrite
  obtain ⟨hrects, -, rfl⟩ := poclWriteImage_eq_success_iff.mp hwrite
  refine ⟨_, poclReadImage_of_plainFloats hmade hplain hinside hrects, ?_, ?_, ?_, ?_⟩
  · intro pair hpair
    exact ((written_covered_iff hmade hplain hinside).mp ⟨pair, hpair, rfl⟩).lt hmade hplain
      hinside
  · intro pair hpair
    rw [← copyRows_same pair hpair]
    exact ((read_covered_iff hmade hplain hinside).mp ⟨pair, hpair, rfl⟩).lt hmade hplain hinside
  · intro host device out x y z byte hin hbyte
    have hx := hin.x_lt.trans_le hinside.x
    have hy := hin.y_lt.trans_le hinside.y
    have hz : z = 0 := by
      have hlt := hin.z_lt
      have hsingle := hinside.single hplain
      omega
    subst hz
    rw [hplain.pixel] at hbyte
    have hcovered := (covered_byteOffset_iff hplain hinside hx hy hbyte).mpr hin
    rw [moveAll_of_mem copyRows_same ((read_covered_iff hmade hplain hinside).mpr hcovered),
      moveAll_of_mem copyRows_same ((written_covered_iff hmade hplain hinside).mpr hcovered)]
  · intro host device x y z byte hx hy hz hout hbyte
    have hzero : z = 0 := by
      rw [hplain.layers] at hz
      omega
    subst hzero
    rw [hplain.pixel] at hbyte
    refine moveAll_of_notMem fun pair hpair heq => hout ?_
    exact (covered_byteOffset_iff hplain hinside hx hy hbyte).mp
      ((written_covered_iff hmade hplain hinside).mp ⟨pair, hpair, heq⟩)

end Sufficiency

/-- The functions agree for a single slice of pixels of 16 bytes. -/
theorem imageRoundTrips_iff
    {context : ImageContext} {accepted : Bool} {format : ImageFormat} {desc : ImageDesc}
    {image : Image} (hcreated : clCreateImage context accepted format desc = .created image)
    (driver : Driver) :
    RoundTrips image driver ↔ WritesNothing image driver ∨ PlainFloats image := by
  have hmade := clCreateImage_wellMade hcreated
  constructor
  · intro hround
    by_cases hnothing : WritesNothing image driver
    · exact .inl hnothing
    · right
      rw [WritesNothing, not_or, not_not] at hnothing
      obtain ⟨hrects, haccepts⟩ := hnothing
      push Not at haccepts
      obtain ⟨origin, region, hinside, haccepted⟩ := haccepts
      rw [Ne, Bool.not_eq_true] at haccepted
      have hlayers : 1 ≤ image.layers := by
        have hz := hinside.z
        have hpos := hinside.nonempty.2.2
        omega
      exact plainFloats_of_roundTrips hmade hround hrects hlayers
        (sixteen_le_size hround hrects hinside haccepted)
  · rintro (hnothing | hplain)
    · intro origin region hinside written hwrite
      obtain ⟨hrects, haccepted, -⟩ := poclWriteImage_eq_success_iff.mp hwrite
      have hrefused := hnothing.resolve_left (not_not.mpr hrects) origin region hinside
      rw [hrefused] at haccepted
      cases haccepted
    · exact roundTrips_of_plainFloats hmade hplain

theorem squareFloats_roundTrip :
    RoundTrips (makeImage (squareDesc .image2D 0) rgbaFloat) .basic :=
  (@imageRoundTrips_iff (oneDevice rgbaFloat) true rgbaFloat (squareDesc .image2D 0) _ (by decide)
    .basic).mpr (.inr ⟨by decide, by decide, by decide, .inr (by decide)⟩)

def rgbaBytes : ImageFormat := ⟨.rgba, .unormInt8⟩

/-- The first pixel is written over the second one. -/
theorem squareBytes_not_roundTrips :
    clCreateImage (oneDevice rgbaBytes) true rgbaBytes (squareDesc .image2D 0) =
        .created (makeImage (squareDesc .image2D 0) rgbaBytes) ∧
      ¬ RoundTrips (makeImage (squareDesc .image2D 0) rgbaBytes) .basic := by
  refine ⟨by decide, fun hround => ?_⟩
  have hinside : RegionInside (makeImage (squareDesc .image2D 0) rgbaBytes)
      ⟨0, 0, 0⟩ ⟨1, 1, 1⟩ :=
    ⟨⟨by decide, by decide, by decide⟩, by decide, by decide, by decide⟩
  obtain ⟨read, -, hback⟩ := hround _ _ hinside _ rfl
  have hother := hback.others (fun _ => 1) (fun _ => 0) 1 0 0 0 (by decide) (by decide)
    (by decide) (fun hin => absurd hin.x_lt (by decide)) (by decide)
  revert hother
  decide

end Pocl.Images
