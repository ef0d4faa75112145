import Pocl.ImageCreation

/-!
# Queries of the supported image formats

`clGetSupportedImageFormats` intersects the lists that the devices of a context report.  It
is called twice by those who search the result: for the number of formats, and for the
formats in an array of that size.

An array is the memory from its first element on, with what lies behind it.  The allocations
of the calls succeed, and the drivers ignore the flags.
-/

namespace Pocl.ImageFormatQueries

open Pocl.Images

inductive QueryCode
  | success
  | invalidValue
  | invalidContext
  | invalidOperation
  | invalidImageSize
  | invalidImageFormatDescriptor
  deriving DecidableEq

/-- What a driver answers: an error, or the list of its formats. -/
abbrev DriverAnswer := Except QueryCode (List ImageFormat)

abbrev FormatArray := ℕ → ImageFormat

structure QueryResult where
  errcode : QueryCode
  /-- The value stored in `*num_image_formats`, if one is stored. -/
  numImageFormats : Option ℕ
  imageFormats : FormatArray

def poclFindImgFormat (toFind : ImageFormat) : List ImageFormat → Bool
  | [] => false
  | format :: list =>
      if toFind.channelOrder = format.channelOrder ∧
          toFind.channelDataType = format.channelDataType then true
      else poclFindImgFormat toFind list

/-- The loop over `devices[1..*]`, which stops at the first one without the format. -/
def foundInOthers (reff : ImageFormat) : List (List ImageFormat) → Bool
  | [] => true
  | list :: others =>
      if poclFindImgFormat reff list then foundInOthers reff others else false

/-- The loop over the formats of the first device, with `formatCount` and the array. -/
def intersect (others : List (List ImageFormat)) (numEntries : ℕ) (wanted : Bool) :
    List ImageFormat → ℕ → FormatArray → ℕ × FormatArray
  | [], formatCount, imageFormats => (formatCount, imageFormats)
  | reff :: formats, formatCount, imageFormats =>
      if foundInOthers reff others then
        intersect others numEntries wanted formats (formatCount + 1)
          (if wanted = true ∧ formatCount ≤ numEntries then
            Function.update imageFormats formatCount reff
          else imageFormats)
      else intersect others numEntries wanted formats formatCount imageFormats

/-- The loop over the devices: an error, no list at all if one of them is empty, or the
lists. -/
def askDevices : List DriverAnswer → Except QueryCode (Option (List (List ImageFormat)))
  | [] => .ok (some [])
  | .error errcode :: _ => .error errcode
  | .ok [] :: _ => .ok none
  | .ok (format :: formats) :: devices =>
      match askDevices devices with
      | .ok (some lists) => .ok (some ((format :: formats) :: lists))
      | answer => answer

/-- `wanted` and `counted` tell whether `image_formats` and `num_image_formats` are given. -/
def clGetSupportedImageFormats (context : Option (List DriverAnswer)) (numEntries : ℕ)
    (wanted counted : Bool) (imageFormats : FormatArray) : QueryResult :=
  match context with
  | none => ⟨.invalidContext, none, imageFormats⟩
  | some devices =>
      if devices = [] then ⟨.invalidContext, none, imageFormats⟩
      else if numEntries = 0 ∧ wanted = true then ⟨.invalidValue, none, imageFormats⟩
      else
        match askDevices devices with
        | .error errcode => ⟨errcode, none, imageFormats⟩
        | .ok none => ⟨.success, if counted then some 0 else none, imageFormats⟩
        | .ok (some []) => ⟨.success, none, imageFormats⟩
        | .ok (some (formats :: others)) =>
            let found := intersect others numEntries wanted formats 0 imageFormats
            ⟨.success, if counted then some found.1 else none, found.2⟩

/-- Whether one of the first entries of the array is the format. -/
def searchFormats (imageFormats : FormatArray) (format : ImageFormat) : ℕ → ℕ → Bool
  | _, 0 => false
  | i, remaining + 1 =>
      if (imageFormats i).channelOrder = format.channelOrder ∧
          (imageFormats i).channelDataType = format.channelDataType then true
      else searchFormats imageFormats format (i + 1) remaining

inductive FormatCheck
  | supported
  | error (code : ImageError)
  | failed (errcode : QueryCode)
  deriving DecidableEq

/-- The check of the format in `clCreateImage`.  The array is fresh. -/
def createImageFormatCheck (context : List DriverAnswer) (fresh : FormatArray)
    (format : ImageFormat) : FormatCheck :=
  let first := clGetSupportedImageFormats (some context) 0 false true fresh
  let numEntries := first.numImageFormats.getD 0
  if first.errcode ≠ .success ∨ numEntries = 0 then .error .invalidValue
  else
    let second := clGetSupportedImageFormats (some context) numEntries true false fresh
    if second.errcode ≠ .success then .failed second.errcode
    else if searchFormats second.imageFormats format 0 numEntries then .supported
    else .error .formatNotSupported

structure QueueDevice where
  imageSupport : Bool
  image2dMaxWidth : SizeT
  image2dMaxHeight : SizeT
  image3dMaxWidth : SizeT
  image3dMaxHeight : SizeT
  image3dMaxDepth : SizeT

/-- The checks that come before the one of the format. -/
def checkImageSizes (device : QueueDevice) (image : Image) : QueryCode :=
  if !device.imageSupport then .invalidOperation
  else
    match image.imageType with
    | .image1D | .image1DArray =>
        if device.image2dMaxWidth < image.width then .invalidImageSize else .success
    | .image2D | .image2DArray =>
        if device.image2dMaxWidth < image.width then .invalidImageSize
        else if device.image2dMaxHeight < image.height then .invalidImageSize
        else .success
    | .image3D =>
        if device.image3dMaxWidth < image.width then .invalidImageSize
        else if device.image3dMaxHeight < image.height then .invalidImageSize
        else if device.image3dMaxDepth < image.depth then .invalidImageSize
        else .success
    | .image1DBuffer => .success

/-- Only the assignment in the search loop belongs to its condition: the first iteration
leaves the loop. -/
def searchFirstFormat (imageFormats : FormatArray) (format : ImageFormat) (numEntries : ℕ)
    (errcode : QueryCode) : QueryCode :=
  match numEntries with
  | 0 => .invalidImageFormatDescriptor
  | _ + 1 =>
      if (imageFormats 0).channelOrder = format.channelOrder ∧
          (imageFormats 0).channelDataType = format.channelDataType then .success
      else errcode

def poclCheckDeviceSupportsImage (device : QueueDevice) (context : List DriverAnswer)
    (fresh : FormatArray) (image : Image) : QueryCode :=
  if checkImageSizes device image ≠ .success then checkImageSizes device image
  else
    let first := clGetSupportedImageFormats (some context) 0 false true fresh
    let numEntries := first.numImageFormats.getD 0
    if first.errcode ≠ .success then first.errcode
    else if numEntries = 0 then first.errcode
    else
      let second := clGetSupportedImageFormats (some context) numEntries true false fresh
      if second.errcode ≠ .success then second.errcode
      else searchFirstFormat second.imageFormats image.format numEntries second.errcode

/-! ## The common formats -/

/-- The formats of the first list that all other ones have as well. -/
def commonFormats (first : List ImageFormat) (others : List (List ImageFormat)) :
    List ImageFormat :=
  first.filter fun format => others.all fun list => list.contains format

section Intersection

variable {first : List ImageFormat} {others : List (List ImageFormat)}

theorem sameFormat_iff (format other : ImageFormat) :
    (format.channelOrder = other.channelOrder ∧
      format.channelDataType = other.channelDataType) ↔ format = other := by
  cases format
  cases other
  rw [ImageFormat.mk.injEq]

theorem poclFindImgFormat_eq (toFind : ImageFormat) (list : List ImageFormat) :
    poclFindImgFormat toFind list = list.contains toFind := by
  induction list with
  | nil => rfl
  | cons format list ih =>
      rw [poclFindImgFormat, List.contains_cons, ih]
      simp only [sameFormat_iff]
      split
      next heq => rw [heq, beq_self_eq_true, Bool.true_or]
      next hne => rw [beq_false_of_ne hne, Bool.false_or]

theorem foundInOthers_eq (reff : ImageFormat) (others : List (List ImageFormat)) :
    foundInOthers reff others = others.all fun list => list.contains reff := by
  induction others with
  | nil => rfl
  | cons list others ih =>
      rw [foundInOthers, List.all_cons, ih, poclFindImgFormat_eq]
      cases list.contains reff <;> rfl

theorem intersect_count (others : List (List ImageFormat)) (numEntries : ℕ) (wanted : Bool)
    (formats : List ImageFormat) (formatCount : ℕ) (imageFormats : FormatArray) :
    (intersect others numEntries wanted formats formatCount imageFormats).1 =
      formatCount + (commonFormats formats others).length := by
  induction formats generalizing formatCount imageFormats with
  | nil => rfl
  | cons reff formats ih =>
      rw [intersect, foundInOthers_eq, commonFormats, List.filter_cons]
      split
      · rw [ih, List.length_cons, commonFormats]
        omega
      · exact ih formatCount imageFormats

theorem intersect_not_wanted (others : List (List ImageFormat)) (numEntries : ℕ)
    (formats : List ImageFormat) (formatCount : ℕ) (imageFormats : FormatArray) :
    (intersect others numEntries false formats formatCount imageFormats).2 = imageFormats := by
  induction formats generalizing formatCount with
  | nil => rfl
  | cons reff formats ih =>
      simp only [intersect, Bool.false_eq_true, false_and, if_false]
      split <;> exact ih _

/-- The entries from `formatCount` on are written up to and including the one at
`num_entries`. -/
theorem intersect_wanted (others : List (List ImageFormat)) (numEntries : ℕ)
    (formats : List ImageFormat) (formatCount : ℕ) (imageFormats : FormatArray) (i : ℕ) :
    (intersect others numEntries true formats formatCount imageFormats).2 i =
      if formatCount ≤ i ∧ i ≤ numEntries then
        (commonFormats formats others)[i - formatCount]?.getD (imageFormats i)
      else imageFormats i := by
  induction formats generalizing formatCount imageFormats with
  | nil => simp [intersect, commonFormats]
  | cons reff formats ih =>
      rw [intersect, foundInOthers_eq, commonFormats, List.filter_cons]
      split
      · rw [ih, ← commonFormats]
        obtain hlt | rfl | hgt := Nat.lt_trichotomy i formatCount
        · simp only [Nat.not_le.mpr hlt, Nat.not_le.mpr (Nat.lt_succ_of_lt hlt), false_and,
            if_false, true_and]
          split
          · exact Function.update_of_ne hlt.ne _ _
          · rfl
        · simp only [Nat.not_le.mpr (Nat.lt_succ_self i), false_and, if_false, le_refl, true_and,
            Nat.sub_self, List.getElem?_cons_zero, Option.getD_some]
          split
          · exact Function.update_self _ _ _
          · rfl
        · have hindex : i - formatCount = i - (formatCount + 1) + 1 := by omega
          have hsame : (if formatCount ≤ numEntries then
              Function.update imageFormats formatCount reff else imageFormats) i =
              imageFormats i := by
            split
            · exact Function.update_of_ne hgt.ne' _ _
            · rfl
          simp only [hindex, List.getElem?_cons_succ, Nat.succ_le_of_lt hgt, hgt.le, true_and,
            hsame]
      · exact ih formatCount imageFormats

theorem askDevices_reported (lists : List (List ImageFormat)) :
    askDevices (lists.map .ok) = .ok (if [] ∈ lists then none else some lists) := by
  induction lists with
  | nil => rfl
  | cons list lists ih =>
      cases list with
      | nil => simp [askDevices]
      | cons format formats =>
          rw [List.map_cons, askDevices, ih]
          by_cases hmem : [] ∈ lists <;> simp [hmem]

theorem commonFormats_of_empty_list (hempty : [] ∈ first :: others) :
    commonFormats first others = [] := by
  obtain rfl | hmem := List.mem_cons.mp hempty
  · rfl
  · refine List.filter_eq_nil_iff.mpr fun format _ hall => ?_
    exact absurd (List.all_eq_true.mp hall [] hmem) (by simp)

/-- Beyond the errors, a query stores the number of the common formats, and those up to and
including the one at `num_entries`. -/
theorem clGetSupportedImageFormats_reported (first : List ImageFormat)
    (others : List (List ImageFormat)) (numEntries : ℕ) (wanted counted : Bool)
    (imageFormats : FormatArray) (hvalid : ¬ (numEntries = 0 ∧ wanted = true)) :
    clGetSupportedImageFormats (some ((first :: others).map .ok)) numEntries wanted counted
        imageFormats =
      ⟨.success, if counted then some (commonFormats first others).length else none,
        fun i => if wanted = true ∧ i ≤ numEntries then
          (commonFormats first others)[i]?.getD (imageFormats i) else imageFormats i⟩ := by
  have hdevices : (first :: others).map Except.ok ≠ ([] : List DriverAnswer) := by simp
  simp only [clGetSupportedImageFormats, if_neg hdevices, if_neg hvalid, askDevices_reported]
  by_cases hempty : [] ∈ first :: others
  · simp [hempty, commonFormats_of_empty_list hempty]
  · simp only [if_neg hempty, intersect_count, Nat.zero_add]
    congr
    funext i
    cases wanted with
    | false => simp [intersect_not_wanted]
    | true => simp [intersect_wanted]

end Intersection

/-! ## The two calls of a search -/

section Searches

variable (first : List ImageFormat) (others : List (List ImageFormat)) (fresh : FormatArray)

theorem searchFormats_iff (imageFormats : FormatArray) (format : ImageFormat) (i n : ℕ) :
    searchFormats imageFormats format i n = true ↔ ∃ k < n, imageFormats (i + k) = format := by
  induction n generalizing i with
  | zero => simp [searchFormats]
  | succ n ih =>
      rw [searchFormats]
      simp only [sameFormat_iff]
      split
      next heq => exact iff_of_true rfl ⟨0, Nat.succ_pos n, heq⟩
      next hne =>
        rw [ih]
        constructor
        · rintro ⟨k, hk, hformat⟩
          exact ⟨k + 1, Nat.succ_lt_succ hk, by rwa [add_comm k, ← add_assoc]⟩
        · rintro ⟨k, hk, hformat⟩
          cases k with
          | zero => exact absurd hformat hne
          | succ k => exact ⟨k, Nat.lt_of_succ_lt_succ hk, by rwa [add_assoc, add_comm 1]⟩

/-- The second call fills an array that has as many entries as there are formats. -/
theorem second_call (hne : commonFormats first others ≠ []) :
    let second := clGetSupportedImageFormats (some ((first :: others).map .ok))
      (commonFormats first others).length true false fresh
    second.errcode = .success ∧
      ∀ format, searchFormats second.imageFormats format 0
          (commonFormats first others).length = true ↔ format ∈ commonFormats first others := by
  have hpos := List.length_pos_of_ne_nil hne
  rw [clGetSupportedImageFormats_reported first others _ true false fresh
    fun hzero => hpos.ne' hzero.1]
  refine ⟨rfl, fun format => ?_⟩
  simp only [searchFormats_iff, List.mem_iff_getElem, Nat.zero_add, true_and]
  constructor
  · rintro ⟨k, hk, hformat⟩
    rw [if_pos hk.le, List.getElem?_eq_getElem hk, Option.getD_some] at hformat
    exact ⟨k, hk, hformat⟩
  · rintro ⟨k, hk, hformat⟩
    refine ⟨k, hk, ?_⟩
    rw [if_pos hk.le, List.getElem?_eq_getElem hk, Option.getD_some, hformat]

/-- The search in `clCreateImage` finds exactly the common formats. -/
theorem createImageFormatCheck_eq (format : ImageFormat) :
    createImageFormatCheck ((first :: others).map .ok) fresh format =
      if commonFormats first others = [] then .error .invalidValue
      else if format ∈ commonFormats first others then .supported
      else .error .formatNotSupported := by
  have hcount := clGetSupportedImageFormats_reported first others
    0 false true fresh (by simp)
  simp only [createImageFormatCheck, hcount, ne_eq, not_true, false_or, if_true,
    Option.getD_some, List.length_eq_zero_iff]
  split
  · rfl
  next hne =>
    obtain ⟨hcode, hsearch⟩ := second_call first others fresh hne
    simp only [hcode, hsearch, not_true, if_false]

/-- The outcomes of the check are the cases that the creation of images distinguishes. -/
theorem createImageFormatCheck_of_context (context : ImageContext) (format : ImageFormat) :
    createImageFormatCheck
        (((context.first :: context.others).map ImageDevice.formats).map .ok) fresh format =
      if supportedFormats context = [] then .error .invalidValue
      else if format ∉ supportedFormats context then .error .formatNotSupported
      else .supported := by
  have hsupported : commonFormats context.first.formats
      (context.others.map ImageDevice.formats) = supportedFormats context := by
    simp only [commonFormats, supportedFormats, List.all_map]
    rfl
  rw [List.map_cons, createImageFormatCheck_eq, hsupported]
  simp only [ite_not]

/-- The search in `pocl_check_device_supports_image` accepts every format. -/
theorem poclCheckDeviceSupportsImage_eq (device : QueueDevice) (image : Image) :
    poclCheckDeviceSupportsImage device ((first :: others).map .ok) fresh image =
      checkImageSizes device image := by
  unfold poclCheckDeviceSupportsImage
  split
  · rfl
  next hsizes =>
    rw [not_ne_iff.mp hsizes]
    have hcount := clGetSupportedImageFormats_reported first others
      0 false true fresh (by simp)
    simp only [hcount, ne_eq, not_true, if_false, if_true, Option.getD_some,
      List.length_eq_zero_iff]
    split
    · rfl
    next hne =>
      have hpos := List.length_pos_of_ne_nil hne
      simp only [(second_call first others fresh hne).1, not_true, if_false]
      cases hlength : (commonFormats first others).length with
      | zero => exact absurd hlength hpos.ne'
      | succ n => exact ite_self _

end Searches

/-! ## Agreement -/

/-- A query of the formats of a context, and what the searches say about an image. -/
structure FormatsAgree (first : List ImageFormat) (others : List (List ImageFormat))
    (numEntries : ℕ) (wanted counted : Bool) (device : QueueDevice) (image : Image) : Prop where
  query : ∀ imageFormats,
    clGetSupportedImageFormats (some ((first :: others).map .ok)) numEntries wanted counted
        imageFormats =
      ⟨.success, if counted then some (commonFormats first others).length else none,
        fun i => if wanted = true ∧ i < numEntries then
          (commonFormats first others)[i]?.getD (imageFormats i) else imageFormats i⟩
  createImage_iff : ∀ fresh,
    createImageFormatCheck ((first :: others).map .ok) fresh image.format = .supported ↔
      image.format ∈ commonFormats first others
  checkDevice_iff : checkImageSizes device image = .success → ∀ fresh,
    (poclCheckDeviceSupportsImage device ((first :: others).map .ok) fresh image = .success ↔
      image.format ∈ commonFormats first others)

section Agreement

variable {first : List ImageFormat} {others : List (List ImageFormat)}

theorem createImageFormatCheck_supported_iff (fresh : FormatArray) (format : ImageFormat) :
    createImageFormatCheck ((first :: others).map .ok) fresh format = .supported ↔
      format ∈ commonFormats first others := by
  rw [createImageFormatCheck_eq]
  split
  next hnil => simp [hnil]
  · split
    next hmem => exact iff_of_true rfl hmem
    next hmem => exact iff_of_false (by simp) hmem

theorem exists_other_format (format : ImageFormat) : ∃ other : ImageFormat, other ≠ format := by
  by_cases hr : format.channelOrder = .r
  · exact ⟨⟨.rgba, .float⟩, fun heq => by rw [← heq] at hr; cases hr⟩
  · exact ⟨⟨.r, .float⟩, fun heq => hr (by rw [← heq])⟩

/-- The query is exact unless it writes one entry behind the array. -/
theorem query_exact_iff (first : List ImageFormat) (others : List (List ImageFormat))
    (numEntries : ℕ) (wanted counted : Bool) :
    (∀ imageFormats,
      clGetSupportedImageFormats (some ((first :: others).map .ok)) numEntries wanted counted
          imageFormats =
        ⟨.success, if counted then some (commonFormats first others).length else none,
          fun i => if wanted = true ∧ i < numEntries then
            (commonFormats first others)[i]?.getD (imageFormats i) else imageFormats i⟩) ↔
      (wanted = true → numEntries ≠ 0 ∧ (commonFormats first others).length ≤ numEntries) := by
  by_cases hinvalid : numEntries = 0 ∧ wanted = true
  · obtain ⟨rfl, rfl⟩ := hinvalid
    refine iff_of_false (fun hquery => ?_) fun hcondition => (hcondition rfl).1 rfl
    have hcode := congrArg QueryResult.errcode (hquery fun _ => ⟨.r, .float⟩)
    simp [clGetSupportedImageFormats] at hcode
  have hreported := fun imageFormats => clGetSupportedImageFormats_reported first others
    numEntries wanted counted imageFormats hinvalid
  constructor
  · rintro hquery rfl
    refine ⟨fun hzero => hinvalid ⟨hzero, rfl⟩, ?_⟩
    by_contra hlt
    have hlt := not_le.mp hlt
    obtain ⟨other, hother⟩ := exists_other_format (commonFormats first others)[numEntries]
    have hwrite := congrFun (congrArg QueryResult.imageFormats
      ((hreported fun _ => other).symm.trans (hquery fun _ => other))) numEntries
    simp [List.getElem?_eq_getElem hlt] at hwrite
    exact hother hwrite.symm
  · intro hcondition imageFormats
    rw [hreported]
    congr
    funext i
    cases wanted with
    | false => simp
    | true =>
        have hle := (hcondition rfl).2
        obtain hlt | rfl | hgt := Nat.lt_trichotomy i numEntries
        · simp [hlt, hlt.le]
        · simp [List.getElem?_eq_none hle]
        · simp [Nat.not_le.mpr hgt, Nat.not_lt.mpr hgt.le]

theorem formatsAgree_iff (first : List ImageFormat) (others : List (List ImageFormat))
    (numEntries : ℕ) (wanted counted : Bool) (device : QueueDevice) (image : Image) :
    FormatsAgree first others numEntries wanted counted device image ↔
      (wanted = true → numEntries ≠ 0 ∧ (commonFormats first others).length ≤ numEntries) ∧
        (checkImageSizes device image = .success →
          image.format ∈ commonFormats first others) := by
  rw [← query_exact_iff first others numEntries wanted counted]
  constructor
  · rintro ⟨hquery, -, hcheck⟩
    refine ⟨hquery, fun hsizes => ?_⟩
    rw [← hcheck hsizes fun _ => ⟨.r, .float⟩, poclCheckDeviceSupportsImage_eq, hsizes]
  · rintro ⟨hquery, hmem⟩
    refine ⟨hquery, fun fresh => createImageFormatCheck_supported_iff fresh image.format, ?_⟩
    intro hsizes fresh
    rw [poclCheckDeviceSupportsImage_eq, hsizes]
    exact iff_of_true rfl (hmem hsizes)

/-! ## Failing queries and checks -/

def smallDevice : QueueDevice where
  imageSupport := true
  image2dMaxWidth := 8192
  image2dMaxHeight := 8192
  image3dMaxWidth := 2048
  image3dMaxHeight := 2048
  image3dMaxDepth := 2048

def smallDesc : ImageDesc where
  imageType := .image2D
  width := 4
  height := 4
  depth := 0
  arraySize := 0
  rowPitch := 0
  slicePitch := 0
  numMipLevels := 0
  numSamples := 0

/-- Two formats do not fit an array with one entry, and an image whose format is not
supported passes the check. -/
theorem not_formatsAgree :
    ¬ FormatsAgree [⟨.rgba, .float⟩, ⟨.r, .float⟩] [] 1 true true smallDevice
        (makeImage smallDesc ⟨.rgba, .float⟩) ∧
      ¬ FormatsAgree [⟨.rgba, .float⟩] [] 1 true true smallDevice
        (makeImage smallDesc ⟨.r, .float⟩) := by
  constructor
  · intro hagree
    have hlength := ((query_exact_iff _ _ _ _ _).mp hagree.query rfl).2
    exact absurd hlength (by decide)
  · intro hagree
    have haccepted := poclCheckDeviceSupportsImage_eq [⟨.rgba, .float⟩] []
      (fun _ => ⟨.r, .float⟩) smallDevice (makeImage smallDesc ⟨.r, .float⟩)
    exact absurd ((hagree.checkDevice_iff rfl _).mp haccepted) (by decide)

end Agreement

end Pocl.ImageFormatQueries
