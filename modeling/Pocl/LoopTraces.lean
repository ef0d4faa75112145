import Mathlib.Data.List.Range
import Mathlib.Tactic

/-!
# Call traces of counted loops and of threads

A counted loop increments a `w`-bit counter while a condition holds and collects
the calls of its body.  It has fuel for its rounds, because a counter that wraps
around may never fail the condition.

The loops over a grid call once for every triple of three ranges.

An interleaving of several threads takes the next call of any of them until none
is left.  Whatever the order, the calls are those of the threads.
-/

namespace Pocl

section Loops

variable {w : ℕ} {α : Type*}

/-- `for (; cond (i); ++i) body (i);` with at most the given number of tests. -/
def forLoop (cond : BitVec w → Bool) (body : BitVec w → Option (List α)) :
    ℕ → BitVec w → Option (List α)
  | 0, _ => none
  | fuel + 1, i =>
      if cond i then do
        let calls ← body i
        let rest ← forLoop cond body fuel (i + 1)
        some (calls ++ rest)
      else
        some []

theorem forLoop_of_bound
    {cond : BitVec w → Bool} {body : BitVec w → Option (List α)}
    {calls : ℕ → List α} {bound : ℕ}
    (hbound : bound < 2 ^ w)
    (hcond : ∀ i, cond i = decide (i.toNat < bound))
    (hbody : ∀ i, i.toNat < bound → body i = some (calls i.toNat))
    (count : ℕ) :
    ∀ (fuel : ℕ) (i : BitVec w), i.toNat + count = bound → count < fuel →
      forLoop cond body fuel i =
        some ((List.range' i.toNat count).flatMap calls) := by
  induction count with
  | zero =>
      intro fuel i hcount hfuel
      obtain ⟨fuel, rfl⟩ := Nat.exists_eq_add_of_lt hfuel
      have hstop : cond i = false := by
        rw [hcond]
        simp only [decide_eq_false_iff_not]
        omega
      simp [forLoop, hstop]
  | succ count ih =>
      intro fuel i hcount hfuel
      obtain ⟨fuel, rfl⟩ : ∃ less, fuel = less + 1 := ⟨fuel - 1, by omega⟩
      have hlt : i.toNat < bound := by omega
      have hnext : (i + 1).toNat = i.toNat + 1 := by
        rw [BitVec.toNat_add]
        have hone : (1 : BitVec w).toNat = 1 % 2 ^ w := BitVec.toNat_ofNat 1 w
        rw [hone, Nat.add_mod_mod]
        exact Nat.mod_eq_of_lt (by omega)
      have hrest := ih fuel (i + 1) (by omega) (by omega)
      have hgo : cond i = true := by
        rw [hcond]
        exact decide_eq_true hlt
      rw [hnext] at hrest
      simp only [forLoop, hgo, if_true, hbody i hlt, hrest, Option.bind_eq_bind,
        Option.bind_some]
      rw [List.range'_succ, List.flatMap_cons]

theorem forLoop_eq
    {cond : BitVec w → Bool} {body : BitVec w → Option (List α)}
    {bound fuel : ℕ} {start : BitVec w}
    (hbound : bound < 2 ^ w)
    (hcond : ∀ i, cond i = decide (i.toNat < bound))
    (calls : ℕ → List α)
    (hbody : ∀ i, i.toNat < bound → body i = some (calls i.toNat))
    (hstart : start.toNat ≤ bound) (hfuel : bound < fuel) :
    forLoop cond body fuel start =
      some ((List.range' start.toNat (bound - start.toNat)).flatMap calls) :=
  forLoop_of_bound hbound hcond hbody (bound - start.toNat) fuel start
    (by omega) (by omega)

/-- Three nested loops from zero, the innermost from any start. -/
theorem forLoop_nested
    {condA condB condC : BitVec w → Bool} {start : BitVec w} {a b c fuel : ℕ}
    (ha : a < 2 ^ w) (hb : b < 2 ^ w) (hc : c < 2 ^ w)
    (hcondA : ∀ i, condA i = decide (i.toNat < a))
    (hcondB : ∀ i, condB i = decide (i.toNat < b))
    (hcondC : ∀ i, condC i = decide (i.toNat < c))
    (hstart : start.toNat ≤ c)
    (hfuelA : a < fuel) (hfuelB : b < fuel) (hfuelC : c < fuel)
    (call : ℕ → ℕ → ℕ → α) :
    forLoop condA
        (fun i => forLoop condB
          (fun j => forLoop condC
            (fun k => some [call i.toNat j.toNat k.toNat]) fuel start) fuel 0)
        fuel 0 =
      some ((List.range a).flatMap fun i => (List.range b).flatMap fun j =>
        (List.range' start.toNat (c - start.toNat)).map fun k => call i j k) := by
  have hzero : (0 : BitVec w).toNat = 0 := BitVec.toNat_zero
  have hinner (i j : ℕ) :
      forLoop condC (fun k => some [call i j k.toNat]) fuel start =
        some ((List.range' start.toNat (c - start.toNat)).map (call i j)) := by
    rw [List.map_eq_flatMap]
    exact forLoop_eq hc hcondC (fun k => [call i j k]) (fun k _ => rfl) hstart hfuelC
  have hmiddle (i : ℕ) :
      forLoop condB
          (fun j => forLoop condC
            (fun k => some [call i j.toNat k.toNat]) fuel start) fuel 0 =
        some ((List.range b).flatMap fun j =>
          (List.range' start.toNat (c - start.toNat)).map (call i j)) := by
    have hloop := forLoop_eq hb hcondB
      (fun j => (List.range' start.toNat (c - start.toNat)).map (call i j))
      (fun j _ => hinner i j.toNat) (hzero.trans_le (Nat.zero_le b)) hfuelB
    rwa [hzero, Nat.sub_zero, ← List.range_eq_range'] at hloop
  have hloop := forLoop_eq ha hcondA
    (fun i => (List.range b).flatMap fun j =>
      (List.range' start.toNat (c - start.toNat)).map (call i j))
    (fun i _ => hmiddle i.toNat) (hzero.trans_le (Nat.zero_le a)) hfuelA
  rwa [hzero, Nat.sub_zero, ← List.range_eq_range'] at hloop

theorem forLoop_diverges
    {cond : BitVec w → Bool} {body : BitVec w → Option (List α)}
    (hcond : ∀ i, cond i = true) :
    ∀ (fuel : ℕ) (i : BitVec w), forLoop cond body fuel i = none := by
  intro fuel
  induction fuel with
  | zero =>
      intro i
      rfl
  | succ fuel ih =>
      intro i
      simp only [forLoop, hcond, if_true, ih, Option.bind_eq_bind]
      cases body i with
      | none => rfl
      | some calls => rfl

theorem forLoop_none_of_body
    {cond : BitVec w → Bool} {body : BitVec w → Option (List α)}
    {i : BitVec w} (hcond : cond i = true) (hbody : body i = none) (fuel : ℕ) :
    forLoop cond body fuel i = none := by
  cases fuel with
  | zero => rfl
  | succ fuel => simp [forLoop, hcond, hbody]

end Loops

section Triples

variable {α β γ : Type*}

/-- The triples of three lists, the last component outermost. -/
def triples (as : List α) (bs : List β) (cs : List γ) : List (α × β × γ) :=
  cs.flatMap fun c => bs.flatMap fun b => as.map fun a => (a, b, c)

theorem mem_triples
    {as : List α} {bs : List β} {cs : List γ} {triple : α × β × γ} :
    triple ∈ triples as bs cs ↔
      triple.1 ∈ as ∧ triple.2.1 ∈ bs ∧ triple.2.2 ∈ cs := by
  simp only [triples, List.mem_flatMap, List.mem_map]
  constructor
  · rintro ⟨c, hc, b, hb, a, ha, rfl⟩
    exact ⟨ha, hb, hc⟩
  · rintro ⟨ha, hb, hc⟩
    exact ⟨_, hc, _, hb, _, ha, rfl⟩

theorem nodup_triples
    {as : List α} {bs : List β} {cs : List γ}
    (has : as.Nodup) (hbs : bs.Nodup) (hcs : cs.Nodup) :
    (triples as bs cs).Nodup := by
  refine List.nodup_flatMap.mpr ⟨fun c _ => ?_, ?_⟩
  · refine List.nodup_flatMap.mpr ⟨fun b _ => ?_, ?_⟩
    · refine has.map fun a a' heq => ?_
      exact congrArg Prod.fst heq
    · refine hbs.pairwise_of_forall_ne fun b _ b' _ hne => ?_
      intro triple htriple htriple'
      obtain ⟨_, _, rfl⟩ := List.mem_map.mp htriple
      obtain ⟨_, _, heq⟩ := List.mem_map.mp htriple'
      exact hne (congrArg (fun triple => triple.2.1) heq).symm
  · refine hcs.pairwise_of_forall_ne fun c _ c' _ hne => ?_
    intro triple htriple htriple'
    simp only [List.mem_flatMap, List.mem_map] at htriple htriple'
    obtain ⟨_, _, _, _, rfl⟩ := htriple
    obtain ⟨_, _, _, _, heq⟩ := htriple'
    exact hne (congrArg (fun triple => triple.2.2) heq).symm

theorem map_reverse_triples (as : List α) (bs : List β) (cs : List γ) :
    (triples as bs cs).map (fun triple => (triple.2.2, triple.2.1, triple.1)) =
      cs.flatMap fun c => bs.flatMap fun b => as.map fun a => (c, b, a) := by
  simp only [triples, List.map_flatMap, List.map_map, Function.comp_def]

end Triples

section Threads

variable {α : Type*}

/-- The calls of several threads in the order in which they happen. -/
inductive Interleaving : List (List α) → List α → Prop
  | done {threads : List (List α)} (hdone : ∀ thread ∈ threads, thread = []) :
      Interleaving threads []
  | next {before after : List (List α)} {call : α} {rest trace : List α}
      (hrest : Interleaving (before ++ rest :: after) trace) :
      Interleaving (before ++ (call :: rest) :: after) (call :: trace)

theorem Interleaving.perm
    {threads : List (List α)} {trace : List α}
    (htrace : Interleaving threads trace) : trace.Perm threads.flatten := by
  induction htrace with
  | done hdone =>
      rw [List.flatten_eq_nil_iff.mpr hdone]
  | @next before after call rest trace _ ih =>
      simp only [List.flatten_append, List.flatten_cons, List.cons_append] at ih ⊢
      exact (ih.cons call).trans List.perm_middle.symm

end Threads

end Pocl
