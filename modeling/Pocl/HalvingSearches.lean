import Pocl.NDRanges
import Pocl.WorkitemLoops

/-!
# Searches that halve a count

`clEnqueueNDRangeKernel` looks for the local size, and the work-item loops pass for the
unroll count, by halving a first value until it divides a size and is not above it.  The
values are not powers of two in general, so what is found is the first of the halved
values that suits, and not the largest divisor.
-/

namespace Pocl

section Halvings

variable {size start chosen : ℕ}

def SuitsSize (size count : ℕ) : Prop :=
  1 ≤ count ∧ count ∣ size ∧ count ≤ size

/-- What the search finds among `start`, `start / 2`, `start / 4` and so on. -/
structure IsFirstHalving (size start chosen : ℕ) : Prop where
  pos : 1 ≤ chosen
  le : chosen ≤ size
  dvd : chosen ∣ size
  first : ∀ round, SuitsSize size (start / 2 ^ round) →
    (∀ earlier < round, ¬ SuitsSize size (start / 2 ^ earlier)) →
      chosen = start / 2 ^ round
  otherwise : (∀ round, ¬ SuitsSize size (start / 2 ^ round)) → start = 0 ∧ chosen = 1

theorem IsFirstHalving.of_zero (hsize : 1 ≤ size) : IsFirstHalving size 0 1 := by
  refine ⟨le_rfl, hsize, one_dvd size, fun round hsuits _ => ?_, fun _ => ⟨rfl, rfl⟩⟩
  rw [Nat.zero_div] at hsuits
  exact absurd hsuits.1 (by omega)

theorem IsFirstHalving.of_suits (hsuits : SuitsSize size start) :
    IsFirstHalving size start start := by
  have hstart : start / 2 ^ 0 = start := by rw [Nat.pow_zero, Nat.div_one]
  refine ⟨hsuits.1, hsuits.2.2, hsuits.2.1, fun round _ hnone => ?_, fun hnone => ?_⟩
  · cases round with
    | zero => exact hstart.symm
    | succ round =>
        have hnot := hnone 0 (Nat.succ_pos round)
        rw [hstart] at hnot
        exact absurd hsuits hnot
  · have hnot := hnone 0
    rw [hstart] at hnot
    exact absurd hsuits hnot

/-- A first value that does not suit is left out. -/
theorem IsFirstHalving.of_half
    (hpos : 1 ≤ start) (hnot : ¬ SuitsSize size start)
    (hhalf : IsFirstHalving size (start / 2) chosen) : IsFirstHalving size start chosen := by
  have hshift : ∀ round, start / 2 ^ (round + 1) = start / 2 / 2 ^ round := by
    intro round
    rw [Nat.div_div_eq_div_mul, Nat.pow_succ, Nat.mul_comm]
  refine ⟨hhalf.pos, hhalf.le, hhalf.dvd, fun round hsuits hnone => ?_, fun hnone => ?_⟩
  · cases round with
    | zero =>
        rw [Nat.pow_zero, Nat.div_one] at hsuits
        exact absurd hsuits hnot
    | succ round =>
        rw [hshift] at hsuits ⊢
        refine hhalf.first round hsuits fun earlier hlt => ?_
        rw [← hshift]
        exact hnone (earlier + 1) (Nat.succ_lt_succ hlt)
  · obtain ⟨hzero, -⟩ := hhalf.otherwise fun round => by
      rw [← hshift]
      exact hnone (round + 1)
    -- Only one is halved to zero, and one suits every size.
    have hone : start = 1 := by omega
    have hsize : 1 ≤ size := hhalf.pos.trans hhalf.le
    exact absurd ⟨hpos, hone ▸ one_dvd size, hone ▸ hsize⟩ hnot

end Halvings

theorem halvedMultiple_isFirstHalving {globalX : ℕ} (hglobal : 1 ≤ globalX) (multiple : ℕ) :
    IsFirstHalving globalX multiple (halvedMultiple globalX multiple) := by
  induction multiple using Nat.strong_induction_on with
  | _ multiple ih =>
      rw [halvedMultiple]
      by_cases hpos : 1 ≤ multiple
      · rw [if_pos hpos]
        by_cases hsuits : globalX % multiple = 0 ∧ multiple ≤ globalX
        · rw [if_pos hsuits]
          exact .of_suits ⟨hpos, Nat.dvd_of_mod_eq_zero hsuits.1, hsuits.2⟩
        · rw [if_neg hsuits]
          refine .of_half hpos (fun hsuits' => hsuits ?_) (ih _ (by omega))
          exact ⟨Nat.mod_eq_zero_of_dvd hsuits'.2.1, hsuits'.2.2⟩
      · rw [if_neg hpos]
        obtain rfl : multiple = 0 := by omega
        exact .of_zero hglobal

namespace WorkitemLoops

/-- The search of the pass is the one for the local size; it does not run out of rounds. -/
theorem halveUnrollCount_eq
    {localSizeX : ℕ} (hlocal : 1 ≤ localSizeX) (rounds : ℕ) :
    ∀ count, 1 ≤ count → count ≤ rounds →
      halveUnrollCount localSizeX rounds count = halvedMultiple localSizeX count := by
  induction rounds with
  | zero => exact fun count hpos hle => absurd hpos (by omega)
  | succ rounds ih =>
      intro count hpos hle
      rw [halveUnrollCount, halvedMultiple, if_neg (by omega), if_pos hpos]
      by_cases hsuits : localSizeX % count = 0 ∧ count ≤ localSizeX
      · rw [if_pos hsuits, if_pos hsuits]
      · rw [if_neg hsuits, if_neg hsuits]
        refine ih _ ?_ (by omega)
        -- The search ends at one at the latest.
        by_contra hzero
        obtain rfl : count = 1 := by omega
        exact hsuits ⟨Nat.mod_one localSizeX, hlocal⟩

theorem unrollCount_eq_halvedMultiple
    {localSizeX : ℕ} (hlocal : 1 ≤ localSizeX) {count : ℤ} (hcount : 0 < count) :
    unrollCount localSizeX (some count) = halvedMultiple localSizeX count.toNat := by
  have hpos : 1 ≤ count.toNat := by omega
  exact halveUnrollCount_eq hlocal _ _ hpos le_rfl

end WorkitemLoops

theorem localSize_x_of_none
    {device : NDRangeDevice} {call : NDRangeCall} (hlocal : call.localWorkSize = none)
    (hdevice : call.deviceOfKernel = true) (hglobal : 1 ≤ call.globalSize.x.toNat) :
    (localSize device call).x.toNat =
      halvedMultiple call.globalSize.x.toNat device.preferredWgSizeMultiple.toNat := by
  have hle := (halvedMultiple_isFirstHalving hglobal device.preferredWgSizeMultiple.toNat).le
  have hlt := call.globalSize.x.isLt
  rw [localSize, hlocal, preferredMultiple, hdevice]
  exact Nat.mod_eq_of_lt (lt_of_le_of_lt hle hlt)

theorem chosenLocalSize_isFirstHalving
    {device : NDRangeDevice} {call : NDRangeCall} (hlocal : call.localWorkSize = none)
    (hdevice : call.deviceOfKernel = true) (hglobal : 1 ≤ call.globalSize.x.toNat) :
    IsFirstHalving call.globalSize.x.toNat device.preferredWgSizeMultiple.toNat
        (localSize device call).x.toNat ∧
      ∀ (localSizeX : ℕ) (count : ℤ), 1 ≤ localSizeX → 0 < count →
        IsFirstHalving localSizeX count.toNat
            (WorkitemLoops.unrollCount localSizeX (some count)) ∧
          WorkitemLoops.unrollCount localSizeX (some count) =
            halvedMultiple localSizeX count.toNat := by
  constructor
  · rw [localSize_x_of_none hlocal hdevice hglobal]
    exact halvedMultiple_isFirstHalving hglobal _
  · intro localSizeX count hlocalSize hcount
    rw [WorkitemLoops.unrollCount_eq_halvedMultiple hlocalSize hcount]
    exact ⟨halvedMultiple_isFirstHalving hlocalSize _, rfl⟩

/-- Eight does not divide the size, and half of it does. -/
def twentyItems : NDRangeCall where
  workDim := 1
  globalWorkOffset := none
  globalWorkSize := ⟨20, 0, 0⟩
  localWorkSize := none
  deviceOfKernel := true
  eventWaitList := false
  numEventsInWaitList := 0
  building := .ok ()

theorem chosenLocalSize_of_twenty :
    IsFirstHalving 20 8
      (localSize ⟨true, 3, 4096, ⟨4096, 4096, 4096⟩, 8⟩ twentyItems).x.toNat :=
  (@chosenLocalSize_isFirstHalving ⟨true, 3, 4096, ⟨4096, 4096, 4096⟩, 8⟩ twentyItems rfl rfl
    (by decide)).1

end Pocl
