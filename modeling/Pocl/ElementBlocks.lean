import Mathlib.Logic.Function.Basic
import Mathlib.Data.List.Range
import Mathlib.Tactic

/-!
# Blocks of elements

A memory of elements, its blocks of consecutive elements, and what a write of one block leaves
to see in another.
-/

namespace Pocl.ElementBlocks

variable {β : Type*} {memory : ℕ → β} {cells : List β} {i : ℕ}

/-- The memory after its elements from `start` on are replaced. -/
def writeBlock (memory : ℕ → β) (start : ℕ) (cells : List β) : ℕ → β := fun i =>
  if start ≤ i then (cells[i - start]?).getD (memory i) else memory i

def readBlock (memory : ℕ → β) (start size : ℕ) : List β :=
  (List.range size).map fun i => memory (start + i)

theorem writeBlock_outside {start : ℕ} (houtside : i < start ∨ start + cells.length ≤ i) :
    writeBlock memory start cells i = memory i := by
  unfold writeBlock
  split
  · have hlength : cells.length ≤ i - start := by omega
    rw [List.getElem?_eq_none hlength]
    rfl
  · rfl

theorem writeBlock_inside (memory : ℕ → β) (start : ℕ) (hi : i < cells.length) :
    writeBlock memory start cells (start + i) = cells[i] := by
  rw [writeBlock, if_pos (Nat.le_add_right _ _), Nat.add_sub_cancel_left,
    List.getElem?_eq_getElem hi]
  rfl

theorem writeBlock_singleton (memory : ℕ → β) (start : ℕ) (cell : β) :
    writeBlock memory start [cell] = Function.update memory start cell := by
  funext i
  by_cases hi : i = start
  · have hlength : 0 < [cell].length := Nat.zero_lt_one
    subst hi
    rw [Function.update_self]
    exact writeBlock_inside memory i hlength
  · rw [Function.update_of_ne hi]
    refine writeBlock_outside ?_
    rw [List.length_singleton]
    omega

theorem writeBlock_append (memory : ℕ → β) (start : ℕ) (cells others : List β) :
    writeBlock (writeBlock memory start cells) (start + cells.length) others =
      writeBlock memory start (cells ++ others) := by
  funext i
  unfold writeBlock
  by_cases hlow : start ≤ i
  · rw [if_pos hlow, if_pos hlow]
    by_cases hhigh : start + cells.length ≤ i
    · have hle : cells.length ≤ i - start := by omega
      have hsub : i - start - cells.length = i - (start + cells.length) := by omega
      rw [if_pos hhigh, List.getElem?_append_right hle, hsub, List.getElem?_eq_none hle]
      rfl
    · rw [if_neg hhigh, List.getElem?_append_left (by omega)]
  · rw [if_neg hlow, if_neg hlow, if_neg (by omega)]

theorem readBlock_add (memory : ℕ → β) (start m n : ℕ) :
    readBlock memory start (m + n) =
      readBlock memory start m ++ readBlock memory (start + m) n := by
  unfold readBlock
  rw [List.range_add, List.map_append, List.map_map]
  simp only [Function.comp_def, add_assoc]

theorem readBlock_writeBlock (memory : ℕ → β) (start : ℕ) (cells : List β) :
    readBlock (writeBlock memory start cells) start cells.length = cells := by
  refine List.ext_getElem ?_ fun i hi hcells => ?_
  · rw [readBlock, List.length_map, List.length_range]
  · simp only [readBlock, List.getElem_map, List.getElem_range]
    exact writeBlock_inside memory start hcells

theorem multiples_apart {size offset other : ℕ} (hne : other ≠ offset) (start i : ℕ) :
    (i < start + offset * size ∨ start + offset * size + size ≤ i) ∨
      (i < start + other * size ∨ start + other * size + size ≤ i) := by
  obtain hlt | hlt := Nat.lt_or_gt_of_ne hne
  · have hmul : (other + 1) * size ≤ offset * size := Nat.mul_le_mul_right size hlt
    rw [add_one_mul] at hmul
    omega
  · have hmul : (offset + 1) * size ≤ other * size := Nat.mul_le_mul_right size hlt
    rw [add_one_mul] at hmul
    omega

end Pocl.ElementBlocks
