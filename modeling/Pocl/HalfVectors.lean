import Pocl.ElementBlocks
import Pocl.HalfPrecision

/-!
# Vectors of halves in memory

A vector is stored and loaded as its two parts, next to each other at a multiple of the offset.
The aligned vectors of three are stored three apart and loaded four apart.
-/

namespace Pocl.HalfVectors

open ElementBlocks HalfPrecision

section Source

/-- The parts of a vector are `lo` and `hi`, and for a vector of three `lo` and `s2`. -/
abbrev Float1 := BitVec 32
abbrev Float2 := Float1 × Float1
abbrev Float3 := Float2 × Float1
abbrev Float4 := Float2 × Float2
abbrev Float8 := Float4 × Float4
abbrev Float16 := Float8 × Float8

/-- A store takes the data, the offset and the pointer. -/
abbrev Store (α : Type) := α → ℕ → ℕ → Memory → Memory

abbrev Load (α : Type) := ℕ → ℕ → Memory → α

section Parts

variable {α β : Type}

/-- The parts go to `&p[offset*scale]` and `&p[offset*scale+shift]`. -/
def storeParts (storeLo : Store α) (storeHi : Store β) (scale shift : ℕ) : Store (α × β) :=
  fun data offset p memory =>
    storeHi data.2 0 (p + (offset * scale + shift))
      (storeLo data.1 0 (p + offset * scale) memory)

def loadParts (loadLo : Load α) (loadHi : Load β) (scale shift : ℕ) : Load (α × β) :=
  fun offset p memory =>
    (loadLo 0 (p + offset * scale) memory, loadHi 0 (p + (offset * scale + shift)) memory)

end Parts

def vstoreHalf2 : Store Float2 := storeParts vstoreHalf vstoreHalf 2 1

def vstoreHalf3 : Store Float3 := storeParts vstoreHalf2 vstoreHalf 3 2

def vstoreHalf4 : Store Float4 := storeParts vstoreHalf2 vstoreHalf2 4 2

def vstoreHalf8 : Store Float8 := storeParts vstoreHalf4 vstoreHalf4 8 4

def vstoreHalf16 : Store Float16 := storeParts vstoreHalf8 vstoreHalf8 16 8

def vstoreaHalf2 : Store Float2 := storeParts vstoreHalf vstoreHalf 2 1

def vstoreaHalf3 : Store Float3 := storeParts vstoreaHalf2 vstoreHalf 3 2

def vstoreaHalf4 : Store Float4 := storeParts vstoreaHalf2 vstoreaHalf2 4 2

def vstoreaHalf8 : Store Float8 := storeParts vstoreaHalf4 vstoreaHalf4 8 4

def vstoreaHalf16 : Store Float16 := storeParts vstoreaHalf8 vstoreaHalf8 16 8

def vloadHalf2 : Load Float2 := loadParts vloadHalf vloadHalf 2 1

def vloadHalf3 : Load Float3 := loadParts vloadHalf2 vloadHalf 3 2

def vloadHalf4 : Load Float4 := loadParts vloadHalf2 vloadHalf2 4 2

def vloadHalf8 : Load Float8 := loadParts vloadHalf4 vloadHalf4 8 4

def vloadHalf16 : Load Float16 := loadParts vloadHalf8 vloadHalf8 16 8

def vloadaHalf2 : Load Float2 := loadParts vloadHalf vloadHalf 2 1

def vloadaHalf3 : Load Float3 := loadParts vloadaHalf2 vloadHalf 4 2

def vloadaHalf4 : Load Float4 := loadParts vloadaHalf2 vloadaHalf2 4 2

def vloadaHalf8 : Load Float8 := loadParts vloadaHalf4 vloadaHalf4 8 4

def vloadaHalf16 : Load Float16 := loadParts vloadaHalf8 vloadaHalf8 16 8

end Source

/-! ## The functions by their widths -/

inductive Width
  | two
  | three
  | four
  | eight
  | sixteen
  deriving DecidableEq, Repr

inductive Family
  | plain
  | aligned
  deriving DecidableEq, Repr

namespace Width

def size : Width → ℕ
  | two => 2
  | three => 3
  | four => 4
  | eight => 8
  | sixteen => 16

def Data : Width → Type
  | two => Float2
  | three => Float3
  | four => Float4
  | eight => Float8
  | sixteen => Float16

end Width

def store : Family → (width : Width) → Store width.Data
  | .plain, .two => vstoreHalf2
  | .plain, .three => vstoreHalf3
  | .plain, .four => vstoreHalf4
  | .plain, .eight => vstoreHalf8
  | .plain, .sixteen => vstoreHalf16
  | .aligned, .two => vstoreaHalf2
  | .aligned, .three => vstoreaHalf3
  | .aligned, .four => vstoreaHalf4
  | .aligned, .eight => vstoreaHalf8
  | .aligned, .sixteen => vstoreaHalf16

def load : Family → (width : Width) → Load width.Data
  | .plain, .two => vloadHalf2
  | .plain, .three => vloadHalf3
  | .plain, .four => vloadHalf4
  | .plain, .eight => vloadHalf8
  | .plain, .sixteen => vloadHalf16
  | .aligned, .two => vloadaHalf2
  | .aligned, .three => vloadaHalf3
  | .aligned, .four => vloadaHalf4
  | .aligned, .eight => vloadaHalf8
  | .aligned, .sixteen => vloadaHalf16

/-! ## The elements of a vector, in order -/

section Elements

def elements1 (data : Float1) : List Float1 := [data]

variable {α β : Type}

def partElements (lo : α → List Float1) (hi : β → List Float1) (data : α × β) : List Float1 :=
  lo data.1 ++ hi data.2

def elements2 : Float2 → List Float1 := partElements elements1 elements1

def elements3 : Float3 → List Float1 := partElements elements2 elements1

def elements4 : Float4 → List Float1 := partElements elements2 elements2

def elements8 : Float8 → List Float1 := partElements elements4 elements4

def elements16 : Float16 → List Float1 := partElements elements8 elements8

def elements : (width : Width) → width.Data → List Float1
  | .two => elements2
  | .three => elements3
  | .four => elements4
  | .eight => elements8
  | .sixteen => elements16

/-- What a scalar load returns after a scalar store. -/
def reread (data : Float1) : Float1 := floatOfHalf (halfOfFloat data)

end Elements

/-! ## Blocks of vectors -/

section Blocks

/-- A store that replaces a block of elements, and nothing else. -/
structure StoresBlock {α : Type} (store : Store α) (elements : α → List Float1)
    (stride size : ℕ) : Prop where
  length_eq : ∀ data, (elements data).length = size
  store_eq : ∀ data offset p memory, store data offset p memory =
    writeBlock memory (p + offset * stride) ((elements data).map halfOfFloat)

structure LoadsBlock {α : Type} (load : Load α) (elements : α → List Float1)
    (stride size : ℕ) : Prop where
  load_eq : ∀ offset p memory, elements (load offset p memory) =
    (readBlock memory (p + offset * stride) size).map floatOfHalf

variable {α β : Type} {loElements : α → List Float1} {hiElements : β → List Float1}
  {loStride hiStride loSize hiSize : ℕ}

theorem storesBlock_vstoreHalf : StoresBlock vstoreHalf elements1 1 1 where
  length_eq data := rfl
  store_eq data offset p memory := by
    rw [mul_one]
    exact (writeBlock_singleton memory (p + offset) (halfOfFloat data)).symm

theorem loadsBlock_vloadHalf : LoadsBlock vloadHalf elements1 1 1 where
  load_eq offset p memory := by
    rw [mul_one]
    rfl

theorem StoresBlock.parts {storeLo : Store α} {storeHi : Store β}
    (hlo : StoresBlock storeLo loElements loStride loSize)
    (hhi : StoresBlock storeHi hiElements hiStride hiSize) (scale : ℕ) :
    StoresBlock (storeParts storeLo storeHi scale loSize) (partElements loElements hiElements)
      scale (loSize + hiSize) where
  length_eq data := by
    rw [partElements, List.length_append, hlo.length_eq, hhi.length_eq]
  store_eq data offset p memory := by
    have hlength : ((loElements data.1).map halfOfFloat).length = loSize := by
      rw [List.length_map, hlo.length_eq]
    rw [storeParts, hlo.store_eq, hhi.store_eq, zero_mul, zero_mul, add_zero, add_zero,
      partElements, List.map_append, ← writeBlock_append, hlength, add_assoc]

theorem LoadsBlock.parts {loadLo : Load α} {loadHi : Load β}
    (hlo : LoadsBlock loadLo loElements loStride loSize)
    (hhi : LoadsBlock loadHi hiElements hiStride hiSize) (scale : ℕ) :
    LoadsBlock (loadParts loadLo loadHi scale loSize) (partElements loElements hiElements)
      scale (loSize + hiSize) where
  load_eq offset p memory := by
    rw [loadParts, partElements, hlo.load_eq, hhi.load_eq, zero_mul, zero_mul, add_zero,
      add_zero, readBlock_add, List.map_append, add_assoc]

theorem storesBlock_store (family : Family) (width : Width) :
    StoresBlock (store family width) (elements width) width.size width.size := by
  have h2 : StoresBlock vstoreHalf2 elements2 2 2 :=
    storesBlock_vstoreHalf.parts storesBlock_vstoreHalf 2
  have h4 : StoresBlock vstoreHalf4 elements4 4 4 := h2.parts h2 4
  have h8 : StoresBlock vstoreHalf8 elements8 8 8 := h4.parts h4 8
  cases family <;> cases width
  -- the two families differ in their names only
  case plain.two | aligned.two => exact h2
  case plain.three | aligned.three => exact h2.parts storesBlock_vstoreHalf 3
  case plain.four | aligned.four => exact h4
  case plain.eight | aligned.eight => exact h8
  case plain.sixteen | aligned.sixteen => exact h8.parts h8 16

/-- The aligned load of three elements has a stride of its own. -/
def loadStride : Family → Width → ℕ
  | .aligned, .three => 4
  | _, width => width.size

theorem loadsBlock_load (family : Family) (width : Width) :
    LoadsBlock (load family width) (elements width) (loadStride family width) width.size := by
  have h2 : LoadsBlock vloadHalf2 elements2 2 2 :=
    loadsBlock_vloadHalf.parts loadsBlock_vloadHalf 2
  have h4 : LoadsBlock vloadHalf4 elements4 4 4 := h2.parts h2 4
  have h8 : LoadsBlock vloadHalf8 elements8 8 8 := h4.parts h4 8
  cases family <;> cases width
  case plain.two | aligned.two => exact h2
  case plain.three => exact h2.parts loadsBlock_vloadHalf 3
  case aligned.three => exact h2.parts loadsBlock_vloadHalf 4
  case plain.four | aligned.four => exact h4
  case plain.eight | aligned.eight => exact h8
  case plain.sixteen | aligned.sixteen => exact h8.parts h8 16

end Blocks

section Layouts

variable (family : Family) (width : Width) (offset : ℕ)

/-- The elements from `p + start` on are replaced by those of the vector, and no others. -/
def WritesAt (start : ℕ) : Prop :=
  ∀ data p memory,
    readBlock (store family width data offset p memory) (p + start) width.size =
      (elements width data).map halfOfFloat ∧
    ∀ i, i < p + start ∨ p + start + width.size ≤ i →
      store family width data offset p memory i = memory i

def ReadsAt (start : ℕ) : Prop :=
  ∀ p memory, elements width (load family width offset p memory) =
    (readBlock memory (p + start) width.size).map floatOfHalf

/-- No store at the offset changes the element. -/
def Untouched (p i : ℕ) : Prop :=
  ∀ data memory, store family width data offset p memory i = memory i

structure LayoutAgrees : Prop where
  loaded : ∀ data p memory,
    elements width (load family width offset p (store family width data offset p memory)) =
      (elements width data).map reread
  written : ∃ start, WritesAt family width offset start
  apart : ∀ other, other ≠ offset → ∀ p i,
    Untouched family width offset p i ∨ Untouched family width other p i
  stride : family = .aligned → width = .three →
    WritesAt family width offset (offset * 4) ∧ ReadsAt family width offset (offset * 4)

theorem writesAt_size : WritesAt family width offset (offset * width.size) := by
  have hstores := storesBlock_store family width
  intro data p memory
  have hlength : ((elements width data).map halfOfFloat).length = width.size := by
    rw [List.length_map, hstores.length_eq]
  rw [hstores.store_eq]
  constructor
  · have hread := readBlock_writeBlock memory (p + offset * width.size)
      ((elements width data).map halfOfFloat)
    rwa [hlength] at hread
  · intro i houtside
    refine writeBlock_outside ?_
    rwa [hlength]

theorem readsAt_loadStride : ReadsAt family width offset (offset * loadStride family width) :=
  fun p memory => (loadsBlock_load family width).load_eq offset p memory

theorem untouched_or_untouched {other : ℕ} (hne : other ≠ offset) (p i : ℕ) :
    Untouched family width offset p i ∨ Untouched family width other p i := by
  obtain houtside | houtside := multiples_apart hne p i
  · exact Or.inl fun data memory =>
      (writesAt_size family width offset data p memory).2 i houtside
  · exact Or.inr fun data memory =>
      (writesAt_size family width other data p memory).2 i houtside

variable {family width offset}

/-- A load at the place of the store returns the elements as the scalar functions do. -/
theorem load_store (hstride : offset * loadStride family width = offset * width.size)
    (data : width.Data) (p : ℕ) (memory : Memory) :
    elements width (load family width offset p (store family width data offset p memory)) =
      (elements width data).map reread := by
  rw [readsAt_loadStride family width offset, hstride,
    (writesAt_size family width offset data p memory).1, List.map_map]
  rfl

theorem vloadaHalf3_beyond (hoffset : offset ≠ 0) (data : Float3) :
    (elements3 (vloadaHalf3 offset 0 (vstoreaHalf3 data offset 0 fun _ => 0)))[2]? =
      some (floatOfHalf 0) := by
  have hthird := congrArg (fun l => l[2]?) (readsAt_loadStride .aligned .three offset 0
    (vstoreaHalf3 data offset 0 fun _ => 0))
  have hbeyond := (writesAt_size .aligned .three offset data 0 fun _ => 0).2
    (0 + offset * 4 + 2) (Or.inr (by simp only [Width.size]; omega))
  exact hthird.trans (congrArg (fun cell => some (floatOfHalf cell)) hbeyond)

end Layouts

/-- The layouts agree, but for aligned vectors of three at an offset other than zero. -/
theorem layoutAgrees_iff (family : Family) (width : Width) (offset : ℕ) :
    LayoutAgrees family width offset ↔
      (family = .aligned → width = .three → offset = 0) := by
  constructor
  · rintro hagrees rfl rfl
    by_contra hoffset
    have hthird := congrArg (fun l => l[2]?)
      (hagrees.loaded ((0x3f800000, 0x40000000), 0x40400000) 0 fun _ => 0)
    have hzero := (vloadaHalf3_beyond hoffset _).symm.trans hthird
    exact absurd hzero (by decide)
  · intro hzero
    have hstride : offset * loadStride family width = offset * width.size := by
      cases family with
      | plain => rfl
      | aligned =>
          cases width with
          | three => rw [hzero rfl rfl, zero_mul, zero_mul]
          | two => rfl
          | four => rfl
          | eight => rfl
          | sixteen => rfl
    have hwrites := writesAt_size family width offset
    refine ⟨load_store hstride, ⟨_, hwrites⟩,
      fun other hne => untouched_or_untouched family width offset hne, ?_⟩
    rintro rfl rfl
    have hreads := readsAt_loadStride .aligned .three offset
    rw [← hstride] at hwrites
    exact ⟨hwrites, hreads⟩

/-- The second vector is loaded from the third of its elements on. -/
theorem vloadaHalf3_second :
    elements3 (vloadaHalf3 1 0
        (vstoreaHalf3 ((0x3f800000, 0x40000000), 0x40400000) 1 0 fun _ => 0)) ≠
      (elements3 ((0x3f800000, 0x40000000), 0x40400000)).map reread := by
  decide

end Pocl.HalfVectors
