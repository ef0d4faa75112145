import Pocl.ElementBlocks

/-!
# Loads and stores of vectors

A vector of four, eight or sixteen elements is loaded and stored as two of half the size, and one
of three elements as two and one.  The memory consists of elements, and a pointer is the index of
an element; no offset leaves the range of `size_t`.
-/

namespace Pocl.VectorMemory

open ElementBlocks

variable {β : Type}

inductive VectorSize
  | two
  | three
  | four
  | eight
  | sixteen
  deriving DecidableEq

def VectorSize.count : VectorSize → ℕ
  | .two => 2
  | .three => 3
  | .four => 4
  | .eight => 8
  | .sixteen => 16

section Loads

variable (memory : ℕ → β) (offset p : ℕ)

def vload2 : List β :=
  [memory (p + offset * 2), memory (p + (offset * 2 + 1))]

def vload3 : List β :=
  vload2 memory 0 (p + offset * 3) ++ [memory (p + (offset * 3 + 2))]

def vload4 : List β :=
  vload2 memory 0 (p + offset * 4) ++ vload2 memory 0 (p + (offset * 4 + 2))

def vload8 : List β :=
  vload4 memory 0 (p + offset * 8) ++ vload4 memory 0 (p + (offset * 8 + 4))

def vload16 : List β :=
  vload8 memory 0 (p + offset * 16) ++ vload8 memory 0 (p + (offset * 16 + 8))

def vload (size : VectorSize) : List β :=
  match size with
  | .two => vload2 memory offset p
  | .three => vload3 memory offset p
  | .four => vload4 memory offset p
  | .eight => vload8 memory offset p
  | .sixteen => vload16 memory offset p

end Loads

/-- A vector has as many elements as its type says. -/
structure VectorValue (β : Type) (size : VectorSize) where
  elements : List β
  length_eq : elements.length = size.count

section Stores

variable (data : List β) (offset p : ℕ) (memory : ℕ → β)

/-- An element is stored; a vector has all of its elements. -/
def storeElement (index : ℕ) (element : Option β) : ℕ → β :=
  match element with
  | some element => Function.update memory index element
  | none => memory

def vstore2 : ℕ → β :=
  storeElement (storeElement memory (p + offset * 2) data[0]?) (p + (offset * 2 + 1)) data[1]?

def vstore3 : ℕ → β :=
  storeElement (vstore2 (data.take 2) 0 (p + offset * 3) memory) (p + (offset * 3 + 2)) data[2]?

def vstore4 : ℕ → β :=
  vstore2 (data.drop 2) 0 (p + (offset * 4 + 2)) (vstore2 (data.take 2) 0 (p + offset * 4) memory)

def vstore8 : ℕ → β :=
  vstore4 (data.drop 4) 0 (p + (offset * 8 + 4)) (vstore4 (data.take 4) 0 (p + offset * 8) memory)

def vstore16 : ℕ → β :=
  vstore8 (data.drop 8) 0 (p + (offset * 16 + 8))
    (vstore8 (data.take 8) 0 (p + offset * 16) memory)

def vstore {size : VectorSize} (data : VectorValue β size) : ℕ → β :=
  match size with
  | .two => vstore2 data.elements offset p memory
  | .three => vstore3 data.elements offset p memory
  | .four => vstore4 data.elements offset p memory
  | .eight => vstore8 data.elements offset p memory
  | .sixteen => vstore16 data.elements offset p memory

end Stores

section Blocks

variable (memory : ℕ → β) {data : List β} (offset p : ℕ)

theorem vload2_eq : vload2 memory offset p = readBlock memory (p + offset * 2) 2 := by
  simp [vload2, readBlock, List.range_succ, add_assoc]

theorem vload4_eq : vload4 memory offset p = readBlock memory (p + offset * 4) 4 := by
  rw [vload4, vload2_eq, vload2_eq, readBlock_add memory _ 2 2]
  simp only [Nat.zero_mul, add_zero, add_assoc]

theorem vload8_eq : vload8 memory offset p = readBlock memory (p + offset * 8) 8 := by
  rw [vload8, vload4_eq, vload4_eq, readBlock_add memory _ 4 4]
  simp only [Nat.zero_mul, add_zero, add_assoc]

/-- A load reads the block of the vector. -/
theorem vload_eq (size : VectorSize) :
    vload memory offset p size = readBlock memory (p + offset * size.count) size.count := by
  cases size with
  | two => exact vload2_eq memory offset p
  | three =>
      change vload3 memory offset p = readBlock memory (p + offset * 3) (2 + 1)
      rw [vload3, vload2_eq, readBlock_add]
      simp [readBlock, add_assoc]
  | four => exact vload4_eq memory offset p
  | eight => exact vload8_eq memory offset p
  | sixteen =>
      change vload16 memory offset p = readBlock memory (p + offset * 16) (8 + 8)
      rw [vload16, vload8_eq, vload8_eq, readBlock_add]
      simp only [Nat.zero_mul, add_zero, add_assoc]

theorem writeBlock_halves (start : ℕ) {m : ℕ} (hlength : m ≤ data.length) :
    writeBlock (writeBlock memory start (data.take m)) (start + m) (data.drop m) =
      writeBlock memory start data := by
  have happend := writeBlock_append memory start (data.take m) (data.drop m)
  rwa [List.length_take_of_le hlength, List.take_append_drop] at happend

theorem vstore2_eq (hlength : data.length = 2) :
    vstore2 data offset p memory = writeBlock memory (p + offset * 2) data := by
  obtain ⟨first, second, rfl⟩ := List.length_eq_two.mp hlength
  have happend := writeBlock_append memory (p + offset * 2) [first] [second]
  simpa [vstore2, storeElement, writeBlock_singleton, add_assoc] using happend

theorem vstore4_eq (hlength : data.length = 4) :
    vstore4 data offset p memory = writeBlock memory (p + offset * 4) data := by
  rw [vstore4, vstore2_eq _ _ _ (by simp [hlength]), vstore2_eq _ _ _ (by simp [hlength]),
    ← writeBlock_halves memory (p + offset * 4) (m := 2) (by omega)]
  simp only [Nat.zero_mul, add_zero, add_assoc]

theorem vstore8_eq (hlength : data.length = 8) :
    vstore8 data offset p memory = writeBlock memory (p + offset * 8) data := by
  rw [vstore8, vstore4_eq _ _ _ (by simp [hlength]), vstore4_eq _ _ _ (by simp [hlength]),
    ← writeBlock_halves memory (p + offset * 8) (m := 4) (by omega)]
  simp only [Nat.zero_mul, add_zero, add_assoc]

/-- A store replaces the block of the vector. -/
theorem vstore_eq {size : VectorSize} (data : VectorValue β size) :
    vstore offset p memory data =
      writeBlock memory (p + offset * size.count) data.elements := by
  obtain ⟨elements, hlength⟩ := data
  cases size with
  | two => exact vstore2_eq memory offset p hlength
  | three =>
      change elements.length = 3 at hlength
      change vstore3 elements offset p memory = writeBlock memory (p + offset * 3) elements
      rw [vstore3, vstore2_eq _ _ _ (by simp [hlength]),
        ← writeBlock_halves memory (p + offset * 3) (m := 2) (by omega)]
      have hlast : elements.drop 2 = [elements[2]] := by
        rw [List.drop_eq_getElem_cons (by omega), List.drop_eq_nil_of_le (by omega)]
      rw [hlast, writeBlock_singleton, List.getElem?_eq_getElem (by omega), storeElement]
      simp only [Nat.zero_mul, add_zero, add_assoc]
  | four => exact vstore4_eq memory offset p hlength
  | eight => exact vstore8_eq memory offset p hlength
  | sixteen =>
      change elements.length = 16 at hlength
      change vstore16 elements offset p memory = writeBlock memory (p + offset * 16) elements
      rw [vstore16, vstore8_eq _ _ _ (by simp [hlength]), vstore8_eq _ _ _ (by simp [hlength]),
        ← writeBlock_halves memory (p + offset * 16) (m := 8) (by omega)]
      simp only [Nat.zero_mul, add_zero, add_assoc]

end Blocks

section Runs

structure Store (β : Type) where
  size : VectorSize
  offset : ℕ
  data : VectorValue β size

namespace Store

variable (p : ℕ) (store : Store β)

def start : ℕ :=
  p + store.offset * store.size.count

/-- The element that the store puts at an index. -/
def element? (i : ℕ) : Option β :=
  if store.start p ≤ i then store.data.elements[i - store.start p]? else none

end Store

/-- Stores of any sizes, one after another. -/
def storeAll (p : ℕ) (memory : ℕ → β) (stores : List (Store β)) : ℕ → β :=
  stores.foldl (fun memory store => vstore store.offset p memory store.data) memory

variable (p : ℕ) (memory : ℕ → β)

theorem storeAll_append (stores : List (Store β)) (store : Store β) :
    storeAll p memory (stores ++ [store]) =
      vstore store.offset p (storeAll p memory stores) store.data := by
  rw [storeAll, List.foldl_append]
  rfl

theorem vstore_apply (store : Store β) (i : ℕ) :
    vstore store.offset p memory store.data i = (store.element? p i).getD (memory i) := by
  rw [vstore_eq, writeBlock, Store.element?, Store.start]
  split
  · rfl
  · rfl

/-- An element is the one that the last store over it has put there. -/
theorem storeAll_apply (stores : List (Store β)) (i : ℕ) :
    storeAll p memory stores i =
      (stores.reverse.findSome? fun store => store.element? p i).getD (memory i) := by
  induction stores using List.reverseRecOn with
  | nil => rfl
  | append_singleton stores store ih =>
      rw [storeAll_append, vstore_apply, ih, List.reverse_append, List.reverse_singleton,
        List.singleton_append, List.findSome?_cons]
      cases store.element? p i with
      | none => rfl
      | some element => rfl

/-- A load gives for each element what the last store over it has put there. -/
theorem vload_storeAll (stores : List (Store β)) (size : VectorSize) (offset : ℕ) :
    vload (storeAll p memory stores) offset p size =
      (List.range size.count).map fun i =>
        (stores.reverse.findSome? fun store =>
          store.element? p (p + offset * size.count + i)).getD
            (memory (p + offset * size.count + i)) := by
  rw [vload_eq, readBlock]
  exact List.map_congr_left fun i _ => storeAll_apply p memory stores _

end Runs

end Pocl.VectorMemory
