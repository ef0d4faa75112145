import Mathlib.Order.Bounds.Basic
import Mathlib.Tactic

/-!
# Layouts with natural alignment

Items of given sizes are placed one behind the other, each at the least offset that is a
multiple of its size and not below the end of the item before it.
-/

namespace Pocl.AlignedLayouts

def alignUp (offset alignment : ℕ) : ℕ :=
  offset + (alignment - offset % alignment) % alignment

section Alignment

variable {offset other alignment : ℕ}

theorem dvd_alignUp (hpos : 0 < alignment) : alignment ∣ alignUp offset alignment := by
  have hlt := Nat.mod_lt offset hpos
  have hsum := Nat.div_add_mod offset alignment
  by_cases hzero : offset % alignment = 0
  · rw [alignUp, hzero, Nat.sub_zero, Nat.mod_self, Nat.add_zero]
    exact Nat.dvd_of_mod_eq_zero hzero
  · have hpad : (alignment - offset % alignment) % alignment = alignment - offset % alignment :=
      Nat.mod_eq_of_lt (by omega)
    have heq : alignUp offset alignment = alignment * (offset / alignment + 1) := by
      rw [alignUp, hpad, Nat.mul_add, Nat.mul_one]
      omega
    rw [heq]
    exact dvd_mul_right _ _

theorem le_alignUp : offset ≤ alignUp offset alignment :=
  Nat.le_add_right _ _

theorem alignUp_lt (hpos : 0 < alignment) : alignUp offset alignment < offset + alignment :=
  Nat.add_lt_add_left (Nat.mod_lt _ hpos) _

theorem alignUp_le
    (hpos : 0 < alignment) (hle : offset ≤ other) (hdvd : alignment ∣ other) :
    alignUp offset alignment ≤ other := by
  by_contra hlt
  have hup : alignUp offset alignment < offset + alignment := alignUp_lt hpos
  -- Two multiples of the alignment that are less than one alignment apart.
  have hdvd' : alignment ∣ alignUp offset alignment := dvd_alignUp hpos
  have hdiff := Nat.dvd_sub hdvd' hdvd
  have hle' := Nat.le_of_dvd (by omega) hdiff
  omega

theorem alignUp_isLeast (hpos : 0 < alignment) :
    IsLeast {place | offset ≤ place ∧ alignment ∣ place} (alignUp offset alignment) :=
  ⟨⟨le_alignUp, dvd_alignUp hpos⟩, fun _ hplace => alignUp_le hpos hplace.1 hplace.2⟩

theorem alignUp_mono (hpos : 0 < alignment) (hle : offset ≤ other) :
    alignUp offset alignment ≤ alignUp other alignment :=
  alignUp_le hpos (hle.trans le_alignUp) (dvd_alignUp hpos)

theorem alignUp_eq_self_iff (hpos : 0 < alignment) :
    alignUp offset alignment = offset ↔ alignment ∣ offset := by
  constructor
  · intro heq
    rw [← heq]
    exact dvd_alignUp hpos
  · intro hdvd
    exact le_antisymm (alignUp_le hpos le_rfl hdvd) le_alignUp

end Alignment

/-- The offsets of items with the given sizes, from a given end on. -/
def PlacedNaturally : ℕ → List ℕ → List ℕ → Prop
  | _, [], [] => True
  | stop, size :: sizes, offset :: offsets =>
      IsLeast {place | stop ≤ place ∧ size ∣ place} offset ∧
        PlacedNaturally (offset + size) sizes offsets
  | _, _, _ => False

/-- The end of the last item. -/
def naturalEnd : ℕ → List ℕ → ℕ
  | stop, [] => stop
  | stop, size :: sizes => naturalEnd (alignUp stop size + size) sizes

theorem le_naturalEnd (stop : ℕ) (sizes : List ℕ) : stop ≤ naturalEnd stop sizes := by
  induction sizes generalizing stop with
  | nil => exact le_rfl
  | cons size sizes ih =>
      exact (le_alignUp.trans (Nat.le_add_right _ _)).trans (ih (alignUp stop size + size))

end Pocl.AlignedLayouts
