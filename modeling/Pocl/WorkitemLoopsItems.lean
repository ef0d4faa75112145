import Pocl.WorkitemLoopsNests

/-!
# The work-items that a loop nest runs

A trace runs a list of work-items if it consists of one path through the region for each of
them, with its local id.  The loops run the work-items in the order of their index; the
first row of a region that was peeled leaves out the first one.
-/

namespace Pocl.WorkitemLoops

open CodeSections

/-- One path for each work-item of the list, in turn. -/
inductive RunsItems (paths : List BlockId → Prop) :
    List (ℕ × ℕ × ℕ) → List Event → Prop
  | nil : RunsItems paths [] []
  | cons {item : ℕ × ℕ × ℕ} {items : List (ℕ × ℕ × ℕ)} {path : List BlockId}
      {trace : List Event} (hpath : paths path) (hrest : RunsItems paths items trace) :
      RunsItems paths (item :: items) (path.map (fun block => (block, item)) ++ trace)

/-- One path with the local id of the memory. -/
def itemSpec (paths : List BlockId → Prop) : Spec :=
  fun memory trace memory' => RunsItems paths [memory.item] trace ∧ memory' = memory

/-- Copies one behind the other, each with its increment. -/
def unrollSpec (paths : List BlockId → Prop) : ℕ → Spec
  | 0 => Machine.Sequence (itemSpec paths) (incrementSpec .x)
  | count + 1 =>
      Machine.Sequence (unrollSpec paths count)
        (Machine.Sequence (itemSpec paths) (incrementSpec .x))

namespace Memory

@[simp] theorem set_self (memory : Memory) (dim : Dim) (value : ℕ) :
    (memory.set dim value).localId dim = value :=
  Function.update_self _ _ _

theorem set_of_ne (memory : Memory) {dim other : Dim} (value : ℕ) (hne : other ≠ dim) :
    (memory.set dim value).localId other = memory.localId other :=
  Function.update_of_ne hne _ _

@[simp] theorem set_first (memory : Memory) (dim : Dim) (value : ℕ) :
    (memory.set dim value).localIdXFirst = memory.localIdXFirst := rfl

@[simp] theorem set_set (memory : Memory) (dim : Dim) (value value' : ℕ) :
    (memory.set dim value).set dim value' = memory.set dim value' := by
  simp [set]

end Memory

section Rows

variable {paths : List BlockId → Prop} {items items' : List (ℕ × ℕ × ℕ)}
  {trace trace' : List Event} {memory memory' : Memory} {spec : Spec}

theorem RunsItems.append
    (hfirst : RunsItems paths items trace) (hsecond : RunsItems paths items' trace') :
    RunsItems paths (items ++ items') (trace ++ trace') := by
  induction hfirst with
  | nil => exact hsecond
  | cons hpath _ ih =>
      rw [List.append_assoc]
      exact .cons hpath ih

theorem RunsItems.singleton {path : List BlockId} (hpath : paths path) (item : ℕ × ℕ × ℕ) :
    RunsItems paths [item] (path.map fun block => (block, item)) := by
  have hcons : RunsItems paths [item] _ := .cons hpath .nil
  rwa [List.append_nil] at hcons

/-- The items of a row, from one local id up to another one. -/
def row (first last y z : ℕ) : List (ℕ × ℕ × ℕ) :=
  (List.range' first (last - first)).map fun x => (x, y, z)

theorem row_append {first middle last y z : ℕ} (hfirst : first ≤ middle)
    (hlast : middle ≤ last) :
    row first middle y z ++ row middle last y z = row first last y z := by
  obtain ⟨a, rfl⟩ := Nat.exists_eq_add_of_le hfirst
  obtain ⟨b, rfl⟩ := Nat.exists_eq_add_of_le hlast
  have hwhole : first + a + b - first = a + b := by omega
  rw [row, row, row, ← List.map_append, Nat.add_sub_cancel_left, Nat.add_sub_cancel_left,
    hwhole, List.range'_append_1]

theorem row_one (x y z : ℕ) : row x (x + 1) y z = [(x, y, z)] := by
  simp [row]

/-- What one round of the innermost loop does, if it runs several work-items. -/
def RoundSpec (paths : List BlockId → Prop) (width : ℕ) (spec : Spec) : Prop :=
  ∀ memory trace memory', spec memory trace memory' →
    RunsItems paths
      (row (memory.localId .x) (memory.localId .x + width) (memory.localId .y)
        (memory.localId .z)) trace ∧
    memory' = memory.set .x (memory.localId .x + width)

theorem roundSpec_one :
    RoundSpec paths 1 (Machine.Sequence (itemSpec paths) (incrementSpec .x)) := by
  rintro memory trace memory' ⟨_, traceFirst, traceSecond, ⟨hitem, rfl⟩, ⟨rfl, rfl⟩, rfl⟩
  rw [List.append_nil, row_one]
  exact ⟨hitem, rfl⟩

theorem roundSpec_unroll (count : ℕ) :
    RoundSpec paths (count + 1) (unrollSpec paths count) := by
  induction count with
  | zero => exact roundSpec_one
  | succ count ih =>
      rintro memory trace memory' ⟨middle, traceFirst, traceSecond, hfirst, hsecond, rfl⟩
      obtain ⟨hruns, rfl⟩ := ih _ _ _ hfirst
      obtain ⟨hruns', rfl⟩ := roundSpec_one _ _ _ hsecond
      rw [Memory.set_self, Memory.set_of_ne _ _ (by decide),
        Memory.set_of_ne _ _ (by decide)] at hruns'
      refine ⟨?_, ?_⟩
      · rw [← Nat.add_assoc, ← row_append (Nat.le_add_right _ (count + 1)) (Nat.le_succ _)]
        exact hruns.append hruns'
      · rw [Memory.set_self, Memory.set_set]
        rfl

/-- The innermost loop from a local id that its width can reach the end from. -/
theorem RoundSpec.rounds
    {width size : ℕ} (hround : RoundSpec paths width spec)
    (hrounds : Machine.Rounds (fun memory => memory.localId .x < size) spec
      memory trace memory')
    (hlt : memory.localId .x < size) (hdvd : width ∣ size - memory.localId .x) :
    RunsItems paths
        (row (memory.localId .x) size (memory.localId .y) (memory.localId .z)) trace ∧
      memory' = memory.set .x size := by
  induction hrounds with
  | @last memory memory' trace hbody htest =>
      obtain ⟨hruns, rfl⟩ := hround _ _ _ hbody
      rw [Memory.set_self] at htest
      have hle := Nat.le_of_dvd (by omega) hdvd
      have heq : memory.localId .x + width = size := by omega
      rw [heq] at hruns ⊢
      exact ⟨hruns, rfl⟩
  | @more memory middle memory' traceFirst traceRest hbody htest hrest ih =>
      obtain ⟨hruns, rfl⟩ := hround _ _ _ hbody
      rw [Memory.set_self] at htest ih
      have hdvd' : width ∣ size - (memory.localId .x + width) := by
        rw [Nat.sub_add_eq]
        exact Nat.dvd_sub hdvd (dvd_refl width)
      obtain ⟨hruns', rfl⟩ := ih htest hdvd'
      rw [Memory.set_of_ne _ _ (by decide), Memory.set_of_ne _ _ (by decide)] at hruns'
      refine ⟨?_, Memory.set_set _ _ _ _⟩
      rw [← row_append (Nat.le_add_right _ width) (Nat.le_of_lt htest)]
      exact hruns.append hruns'

end Rows

section Levels

variable {paths : List BlockId → Prop} {spec : Spec} {size : ℕ}

/-- The first local id of the next row: the first iteration of a region that was peeled has
been run before. -/
def skipOf (peelFirst : Bool) (sizeX : ℕ) (memory : Memory) : ℕ :=
  if peelFirst = true ∧ 1 < sizeX then memory.localIdXFirst else 0

/-- The innermost loop can be run. -/
structure RowReady (peelFirst : Bool) (sizeX : ℕ) (memory : Memory) : Prop where
  x_eq : sizeX = 1 → memory.localId .x = 0
  skip_lt : skipOf peelFirst sizeX memory < sizeX

/-- What the innermost loop does. -/
def RowSpec (paths : List BlockId → Prop) (peelFirst : Bool) (sizeX : ℕ) (spec : Spec) : Prop :=
  ∀ memory trace memory', RowReady peelFirst sizeX memory → spec memory trace memory' →
    RunsItems paths
        (row (skipOf peelFirst sizeX memory) sizeX (memory.localId .y) (memory.localId .z))
        trace ∧
      memory'.localId .y = memory.localId .y ∧ memory'.localId .z = memory.localId .z ∧
      RowReady peelFirst sizeX memory' ∧ skipOf peelFirst sizeX memory' = 0

theorem rowSpec_of_one
    {peelFirst addIncBlock : Bool}
    (hitem : ∀ memory trace memory', spec memory trace memory' →
      itemSpec paths memory trace memory') :
    RowSpec paths peelFirst 1 (optionalLoopSpec .x 1 peelFirst addIncBlock spec) := by
  intro memory trace memory' hready hspec
  rw [optionalLoopSpec, if_neg (Nat.lt_irrefl 1)] at hspec
  obtain ⟨hruns, rfl⟩ := hitem _ _ _ hspec
  have hskip : skipOf peelFirst 1 memory' = 0 := by simp [skipOf]
  have hitemEq : memory'.item = (0, memory'.localId .y, memory'.localId .z) := by
    rw [Memory.item, hready.x_eq rfl]
  rw [hitemEq] at hruns
  rw [hskip, row_one 0]
  exact ⟨hruns, rfl, rfl, hready, rfl⟩

theorem RoundSpec.rowSpec
    {width : ℕ} {peelFirst addIncBlock : Bool}
    (hround : RoundSpec paths width (bodySpec .x addIncBlock spec)) (hsize : 1 < size)
    (hdvd : width ∣ size) (hwidth : peelFirst = true → width = 1) :
    RowSpec paths peelFirst size (optionalLoopSpec .x size peelFirst addIncBlock spec) := by
  intro memory trace memory' hready hspec
  rw [optionalLoopSpec, if_pos hsize] at hspec
  have hstart : (startOf peelFirst .x memory).localId .x = skipOf peelFirst size memory ∧
      (startOf peelFirst .x memory).localId .y = memory.localId .y ∧
      (startOf peelFirst .x memory).localId .z = memory.localId .z ∧
      (peelFirst = true → (startOf peelFirst .x memory).localIdXFirst = 0) := by
    cases peelFirst with
    | false => exact ⟨by simp [startOf, skipOf], rfl, rfl, fun h => (Bool.false_ne_true h).elim⟩
    | true => exact ⟨by simp [startOf, skipOf, hsize, Memory.set], rfl, rfl, fun _ => rfl⟩
  obtain ⟨hx, hy, hz, hfirst⟩ := hstart
  have hdvd' : width ∣ size - skipOf peelFirst size memory := by
    cases peelFirst with
    | false => simpa [skipOf] using hdvd
    | true => exact hwidth rfl ▸ one_dvd _
  obtain ⟨hruns, rfl⟩ :=
    hround.rounds hspec (by rw [hx]; exact hready.skip_lt) (by rw [hx]; exact hdvd')
  rw [hx, hy, hz] at hruns
  have hskip : skipOf peelFirst size ((startOf peelFirst .x memory).set .x size) = 0 := by
    cases peelFirst with
    | false => simp [skipOf]
    | true => simpa [skipOf, hsize] using hfirst rfl
  refine ⟨hruns, hy, hz, ⟨fun hone => ?_, ?_⟩, hskip⟩
  · exact absurd hone (Nat.ne_of_gt hsize)
  · rw [hskip]
    exact Nat.zero_lt_of_lt hsize

variable {dim : Dim} {keep : Memory → Prop} {items : ℕ → ℕ → List (ℕ × ℕ × ℕ)}
  {skip : Memory → ℕ}

/-- What a loop around other loops does, if they run the items of one local id. -/
def LevelSpec
    (paths : List BlockId → Prop) (dim : Dim) (keep : Memory → Prop) (skip : Memory → ℕ)
    (items : ℕ → ℕ → List (ℕ × ℕ × ℕ)) (spec : Spec) : Prop :=
  ∀ memory trace memory', keep memory → spec memory trace memory' →
    RunsItems paths (items (skip memory) (memory.localId dim)) trace ∧
      memory'.localId dim = memory.localId dim ∧ keep memory' ∧ skip memory' = 0

/-- The local ids from the first one on; only the first of them may skip items. -/
def levelItems (items : ℕ → ℕ → List (ℕ × ℕ × ℕ)) (size skip first : ℕ) :
    List (ℕ × ℕ × ℕ) :=
  items skip first ++ (List.range' (first + 1) (size - (first + 1))).flatMap (items 0)

theorem LevelSpec.rounds
    {memory memory' : Memory} {trace : List Event}
    (hlevel : LevelSpec paths dim keep skip items spec)
    (hset : ∀ memory value, keep memory → keep (memory.set dim value))
    (hskip : ∀ memory value, skip (memory.set dim value) = skip memory)
    (hrounds : Machine.Rounds (fun memory => memory.localId dim < size)
      (bodySpec dim true spec) memory trace memory')
    (hkeep : keep memory) (hlt : memory.localId dim < size) :
    RunsItems paths (levelItems items size (skip memory) (memory.localId dim)) trace ∧
      keep memory' ∧ skip memory' = 0 := by
  induction hrounds with
  | @last memory memory' trace hbody htest =>
      obtain ⟨middle, traceFirst, traceSecond, hspec, ⟨rfl, rfl⟩, rfl⟩ := hbody
      obtain ⟨hruns, hdim, hkept, hzero⟩ := hlevel _ _ _ hkeep hspec
      rw [Memory.set_self, hdim] at htest
      have hend : size - (memory.localId dim + 1) = 0 := by omega
      rw [levelItems, hend, List.range'_zero, List.flatMap_nil]
      rw [List.append_nil, List.append_nil]
      exact ⟨hruns, hset _ _ hkept, by rw [hskip, hzero]⟩
  | @more memory _ memory' _ traceRest hbody htest hrest ih =>
      obtain ⟨middle, traceFirst, traceSecond, hspec, ⟨rfl, rfl⟩, rfl⟩ := hbody
      obtain ⟨hruns, hdim, hkept, hzero⟩ := hlevel _ _ _ hkeep hspec
      obtain ⟨hruns', hkept', hzero'⟩ := ih (hset _ _ hkept) htest
      rw [Memory.set_self, hskip, hzero, hdim] at hruns'
      rw [Memory.set_self, hdim] at htest
      obtain ⟨count, hcount⟩ : ∃ count, size - (memory.localId dim + 1) = count + 1 :=
        ⟨size - (memory.localId dim + 1) - 1, by omega⟩
      have hcount' : size - (memory.localId dim + 1 + 1) = count := by omega
      refine ⟨?_, hkept', hzero'⟩
      rw [levelItems, hcount'] at hruns'
      rw [levelItems, hcount, List.range'_succ, List.flatMap_cons, List.append_nil]
      exact hruns.append hruns'

theorem LevelSpec.optionalLoop
    (hlevel : LevelSpec paths dim keep skip items spec)
    (hset : ∀ memory value, keep memory → keep (memory.set dim value))
    (hskip : ∀ memory value, skip (memory.set dim value) = skip memory)
    (hsize : 1 ≤ size) {memory memory' : Memory} {trace : List Event} (hkeep : keep memory)
    (hone : size = 1 → memory.localId dim = 0)
    (hspec : optionalLoopSpec dim size false true spec memory trace memory') :
    RunsItems paths (levelItems items size (skip memory) 0) trace ∧
      keep memory' ∧ skip memory' = 0 ∧ (size = 1 → memory'.localId dim = 0) := by
  by_cases hlt : 1 < size
  · rw [optionalLoopSpec, if_pos hlt] at hspec
    have hstart : startOf false dim memory = memory.set dim 0 := rfl
    rw [loopSpec, hstart] at hspec
    obtain ⟨hruns, hkept, hzero⟩ := hlevel.rounds hset hskip hspec (hset _ _ hkeep)
      (by rw [Memory.set_self]; omega)
    rw [hskip, Memory.set_self] at hruns
    exact ⟨hruns, hkept, hzero, fun heq => absurd heq (Nat.ne_of_gt hlt)⟩
  · obtain rfl : size = 1 := by omega
    rw [optionalLoopSpec, if_neg hlt] at hspec
    obtain ⟨hruns, hdim, hkept, hzero⟩ := hlevel _ _ _ hkeep hspec
    rw [hone rfl] at hruns hdim
    have hitems : levelItems items 1 (skip memory) 0 = items (skip memory) 0 := by
      simp [levelItems]
    rw [hitems]
    exact ⟨hruns, hkept, hzero, fun _ => hdim⟩

end Levels

section Nests

variable {paths : List BlockId → Prop} {spec : Spec} {peelFirst : Bool}
  {memory memory' : Memory} {trace : List Event}

theorem levelItems_zero (items : ℕ → ℕ → List (ℕ × ℕ × ℕ)) {size : ℕ} (hsize : 1 ≤ size) :
    levelItems items size 0 0 = (List.range size).flatMap (items 0) := by
  obtain ⟨count, rfl⟩ := Nat.exists_eq_add_of_le' hsize
  rw [levelItems, List.range_eq_range', List.range'_succ, List.flatMap_cons,
    Nat.zero_add, Nat.add_sub_cancel]

theorem levelItems_drop
    {items : ℕ → ℕ → List (ℕ × ℕ × ℕ)} (size : ℕ) {skip first : ℕ}
    (hdrop : items skip first = (items 0 first).drop skip)
    (hle : skip ≤ (items 0 first).length) :
    levelItems items size skip first = (levelItems items size 0 first).drop skip := by
  rw [levelItems, levelItems, List.drop_append_of_le_length hle, hdrop]

theorem row_drop (skip sizeX y z : ℕ) : row skip sizeX y z = (row 0 sizeX y z).drop skip := by
  rw [row, row, ← List.map_drop, List.drop_range', Nat.sub_zero, Nat.zero_add, Nat.mul_one]

/-- All local ids, in the order of their numbers. -/
def localIds (sizes : LocalSizes) : List (ℕ × ℕ × ℕ) :=
  (List.range sizes.z).flatMap fun z =>
    (List.range sizes.y).flatMap fun y => row 0 sizes.x y z

/-- The loops of a region can be run. -/
structure NestReady (peelFirst : Bool) (sizes : LocalSizes) (memory : Memory) : Prop where
  row : RowReady peelFirst sizes.x memory
  y_eq : sizes.y = 1 → memory.localId .y = 0
  z_eq : sizes.z = 1 → memory.localId .z = 0

theorem RowReady.set {sizeX value : ℕ} {dim : Dim} (hready : RowReady peelFirst sizeX memory)
    (hne : dim ≠ .x) : RowReady peelFirst sizeX (memory.set dim value) where
  x_eq hone := by rw [memory.set_of_ne value hne.symm, hready.x_eq hone]
  skip_lt := hready.skip_lt

/-- The rows of one value of the third local id. -/
def plane (sizeX sizeY skip z : ℕ) : List (ℕ × ℕ × ℕ) :=
  levelItems (fun skip y => row skip sizeX y z) sizeY skip 0

theorem RowSpec.level {sizeX : ℕ} (hrow : RowSpec paths peelFirst sizeX spec) (z : ℕ) :
    LevelSpec paths .y (fun memory => RowReady peelFirst sizeX memory ∧ memory.localId .z = z)
      (skipOf peelFirst sizeX) (fun skip y => row skip sizeX y z) spec := by
  rintro memory trace memory' ⟨hready, rfl⟩ hspec
  obtain ⟨hruns, hy, hz, hready', hskip⟩ := hrow _ _ _ hready hspec
  exact ⟨hruns, hy, ⟨hready', hz⟩, hskip⟩

theorem RowSpec.levels
    {sizeX sizeY : ℕ} (hrow : RowSpec paths peelFirst sizeX spec) (hsize : 1 ≤ sizeY) :
    LevelSpec paths .z
      (fun memory => RowReady peelFirst sizeX memory ∧ (sizeY = 1 → memory.localId .y = 0))
      (skipOf peelFirst sizeX)
      (plane sizeX sizeY) (optionalLoopSpec .y sizeY false true spec) := by
  rintro memory trace memory' ⟨hready, hone⟩ hspec
  obtain ⟨hruns, ⟨hready', hz⟩, hskip, hone'⟩ :=
    (hrow.level (memory.localId .z)).optionalLoop
      (fun other value hkeep => ⟨hkeep.1.set (by decide),
        (other.set_of_ne value (by decide)).trans hkeep.2⟩)
      (fun _ _ => rfl) hsize ⟨hready, rfl⟩ hone hspec
  exact ⟨hruns, hz, ⟨hready', hone'⟩, hskip⟩

theorem le_length_plane {sizeX skip : ℕ} (sizeY : ℕ) (hskip : skip ≤ sizeX) (z : ℕ) :
    skip ≤ (plane sizeX sizeY 0 z).length := by
  rw [plane, levelItems, List.length_append]
  exact Nat.le_add_right_of_le (by simpa [row] using hskip)

theorem plane_drop {sizeX skip : ℕ} (sizeY : ℕ) (hskip : skip ≤ sizeX) (z : ℕ) :
    plane sizeX sizeY skip z = (plane sizeX sizeY 0 z).drop skip :=
  levelItems_drop sizeY (row_drop skip sizeX 0 z) (by simpa [row] using hskip)

theorem localIds_drop
    {sizes : LocalSizes} {skip : ℕ} (hskip : skip ≤ sizes.x) (hy : 1 ≤ sizes.y)
    (hz : 1 ≤ sizes.z) :
    levelItems (plane sizes.x sizes.y) sizes.z skip 0 = (localIds sizes).drop skip := by
  have hplane : plane sizes.x sizes.y 0 = fun z =>
      (List.range sizes.y).flatMap fun y => row 0 sizes.x y z :=
    funext fun z => levelItems_zero (fun skip y => row skip sizes.x y z) hy
  rw [levelItems_drop sizes.z (plane_drop sizes.y hskip 0) (le_length_plane sizes.y hskip 0),
    levelItems_zero _ hz, hplane, localIds]

theorem RowSpec.loops
    {sizes : LocalSizes} {unrolled : Bool}
    (hrow : RowSpec paths peelFirst sizes.x
      (optionalLoopSpec .x sizes.x peelFirst (!unrolled) spec))
    (hy : 1 ≤ sizes.y) (hz : 1 ≤ sizes.z) (hready : NestReady peelFirst sizes memory)
    (hspec : loopsSpec sizes peelFirst unrolled spec memory trace memory') :
    RunsItems paths ((localIds sizes).drop (skipOf peelFirst sizes.x memory)) trace := by
  obtain ⟨hruns, -⟩ := (hrow.levels hy).optionalLoop
    (fun other value hkeep => ⟨hkeep.1.set (by decide), fun hone =>
      (other.set_of_ne value (by decide)).trans (hkeep.2 hone)⟩)
    (fun _ _ => rfl) hz ⟨hready.row, hready.y_eq⟩ hready.z_eq hspec
  rwa [localIds_drop (Nat.le_of_lt hready.row.skip_lt) hy hz] at hruns

theorem itemSpec_rows (peelFirst : Bool) {sizeX : ℕ} (hx : 1 ≤ sizeX) :
    RowSpec paths peelFirst sizeX
      (optionalLoopSpec .x sizeX peelFirst true (itemSpec paths)) := by
  rcases Nat.eq_or_lt_of_le hx with rfl | hlt
  · exact rowSpec_of_one fun _ _ _ hitem => hitem
  · exact roundSpec_one.rowSpec hlt (one_dvd _) fun _ => rfl

theorem unrollSpec_rows {sizeX count : ℕ} (hx : 1 < sizeX) (hdvd : count + 1 ∣ sizeX) :
    RowSpec paths false sizeX
      (optionalLoopSpec .x sizeX false false (unrollSpec paths count)) :=
  RoundSpec.rowSpec (roundSpec_unroll count) hx hdvd fun h => (Bool.false_ne_true h).elim

end Nests

end Pocl.WorkitemLoops
